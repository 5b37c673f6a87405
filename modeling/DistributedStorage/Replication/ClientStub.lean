import DistributedStorage.Files.Socket
import Mathlib.Order.Nat
import Mathlib.Tactic.SplitIfs

/-! The client stub of the replicated file system between an Open and the Close of the same handle. A write
at offset 0 of a handle that is open for writing replaces the file. -/

namespace DistributedStorage.Replication

open Files

/-- An entry of `active_handles`. -/
structure ActiveHandle where
  path : String
  filename : String
  mode : String
  deriving DecidableEq

structure CloseRequest where
  fileHandle : ℤ
  fileData : FileData
  clientId : String
  seqNum : ℕ
  deriving DecidableEq

structure ReplicatedDSFSClientStub where
  clientId : String
  seqNum : ℕ
  cacheDir : String → Option FileData
  cacheMetadata : String → Option CacheEntry
  activeHandles : ℤ → Option ActiveHandle

/-- A write call: offset and bytes. -/
abbrev Write : Type := ℕ × FileData

namespace ReplicatedDSFSClientStub

variable (k : ReplicatedDSFSClientStub)

def deleteOldCachedVersions (filename keep : String) : ReplicatedDSFSClientStub :=
  { k with cacheDir := fun e => if isCachedVersion filename e ∧ e ≠ keep then none else k.cacheDir e }

/-- What Open does with the answer of the server; `none` is the `KeyError` of a file that is not in the
metadata. -/
def opened (filename mode : String) (fetchData : Bool) (r : DSFSLogic.OpenResponse) :
    Option ReplicatedDSFSClientStub :=
  if fetchData then
    let path := cachePath filename r.serverVersion
    let t := { k with
      cacheDir := Function.update k.cacheDir path (some r.fileData)
      cacheMetadata := Function.update k.cacheMetadata filename (some ⟨r.serverVersion, path⟩) }
    let u := t.deleteOldCachedVersions filename path
    some { u with activeHandles := Function.update u.activeHandles r.fileHandle (some ⟨path, filename, mode⟩) }
  else
    (k.cacheMetadata filename).map fun e =>
      { k with activeHandles := Function.update k.activeHandles r.fileHandle (some ⟨e.path, filename, mode⟩) }

/-- The bytes in the local file of a handle. -/
def cached (handle : ℤ) : Option FileData :=
  (k.activeHandles handle).bind fun h => k.cacheDir h.path

/-- `none` when the handle is not active, or the file is gone that is not truncated. -/
def write (handle : ℤ) (w : Write) : Option (ReplicatedDSFSClientStub × ℕ) :=
  (k.activeHandles handle).bind fun h =>
    if w.1 = 0 ∧ h.mode = "w" then
      some ({ k with cacheDir := Function.update k.cacheDir h.path (some w.2) }, w.2.length)
    else
      (k.cacheDir h.path).map fun old =>
        ({ k with
          cacheDir := Function.update k.cacheDir h.path (some (DSFSClientStub.overwrite old w.1 w.2)) },
          w.2.length)

/-- Write calls on one handle, one after the other. -/
def writes (handle : ℤ) (ws : List Write) : Option ReplicatedDSFSClientStub :=
  ws.foldlM (fun k w => (k.write handle w).map Prod.fst) k

/-- Close up to its request. -/
def closeRequest (handle : ℤ) : Option (ReplicatedDSFSClientStub × CloseRequest) :=
  (k.activeHandles handle).bind fun h =>
    (k.cacheDir h.path).map fun finalData =>
      ({ k with
        activeHandles := Function.update k.activeHandles handle none
        seqNum := k.seqNum + 1 },
        ⟨handle, finalData, k.clientId, k.seqNum + 1⟩)

end ReplicatedDSFSClientStub

/-! What a sequence of writes leaves in the file. -/

/-- The byte that a write puts at a position, if it covers it. -/
def covering (w : Write) (i : ℕ) : Option UInt8 :=
  if w.1 ≤ i then w.2[i - w.1]? else none

/-- The byte of the last write that covers a position. -/
def lastCovering : List Write → ℕ → Option UInt8
  | [], _ => none
  | w :: ws, i => (lastCovering ws i).or (covering w i)

/-- One write to a file that is open for writing. -/
def applyWrite (old : FileData) (w : Write) : FileData :=
  if w.1 = 0 then w.2 else DSFSClientStub.overwrite old w.1 w.2

/-- Every offset is at most the length the file has by then. -/
def InBounds : FileData → List Write → Prop
  | _, [] => True
  | old, w :: ws => w.1 ≤ old.length ∧ InBounds (applyWrite old w) ws

instance decidableInBounds : ∀ (old : FileData) (ws : List Write), Decidable (InBounds old ws)
  | _, [] => inferInstanceAs (Decidable True)
  | old, w :: ws =>
    have := decidableInBounds (applyWrite old w) ws
    inferInstanceAs (Decidable (_ ∧ _))

/-- The two writes have no position in common. -/
def Apart (a b : Write) : Prop :=
  a.1 + a.2.length ≤ b.1 ∨ b.1 + b.2.length ≤ a.1

variable {old data : FileData} {o : ℕ} {ws : List Write}

/-- Past the end of the file, up to the offset, a write leaves zeros. -/
lemma overwrite_getElem? (old : FileData) (o : ℕ) {data : FileData} (hd : data ≠ []) (i : ℕ) :
    (DSFSClientStub.overwrite old o data)[i]? =
      if i < o then (if i < old.length then old[i]? else some 0)
      else if i < o + data.length then data[i - o]? else old[i]? := by
  have hlen : ((old ++ List.replicate (o - old.length) 0).take o).length = o := by
    rw [List.length_take, List.length_append, List.length_replicate]
    omega
  rw [DSFSClientStub.overwrite, if_neg hd, List.append_assoc]
  by_cases hi : i < o
  · rw [if_pos hi, List.getElem?_append_left (by omega), List.getElem?_take_of_lt hi]
    split_ifs with hold
    · rw [List.getElem?_append_left hold]
    · rw [List.getElem?_append_right (by omega), List.getElem?_replicate, if_pos (by omega)]
  · rw [if_neg hi, List.getElem?_append_right (by omega), hlen]
    split_ifs with hin
    · rw [List.getElem?_append_left (by omega)]
    · rw [List.getElem?_append_right (by omega), List.getElem?_drop]
      congr 1
      omega

lemma overwrite_length (old : FileData) (o : ℕ) {data : FileData} (hd : data ≠ []) :
    (DSFSClientStub.overwrite old o data).length = max old.length (o + data.length) := by
  rw [DSFSClientStub.overwrite, if_neg hd]
  simp only [List.length_append, List.length_take, List.length_replicate, List.length_drop]
  omega

/-- A write within the file puts its bytes over those that were there. -/
lemma overwrite_covering (h : o ≤ old.length) (i : ℕ) :
    (DSFSClientStub.overwrite old o data)[i]? = (covering (o, data) i).or old[i]? := by
  by_cases hd : data = []
  · simp [DSFSClientStub.overwrite, covering, hd]
  rw [overwrite_getElem? old o hd]
  by_cases hlt : i < o
  · have hc : covering (o, data) i = none := if_neg (not_le.mpr hlt)
    rw [hc, if_pos hlt, if_pos (by omega), Option.none_or]
  · have hc : covering (o, data) i = data[i - o]? := if_pos (not_lt.mp hlt)
    rw [hc, if_neg hlt]
    split_ifs with hin
    · have hin' : i - o < data.length := by omega
      rw [List.getElem?_eq_getElem hin', Option.some_or]
    · have hout : data[i - o]? = none := List.getElem?_eq_none (by omega)
      rw [hout, Option.none_or]

lemma overwrite_nil (old : FileData) (o : ℕ) : DSFSClientStub.overwrite old o [] = old := rfl

lemma overwrite_comm (old : FileData) {a b : Write} (h : a.1 + a.2.length ≤ b.1) :
    DSFSClientStub.overwrite (DSFSClientStub.overwrite old a.1 a.2) b.1 b.2 =
      DSFSClientStub.overwrite (DSFSClientStub.overwrite old b.1 b.2) a.1 a.2 := by
  by_cases ha : a.2 = []
  · rw [ha, overwrite_nil, overwrite_nil]
  by_cases hb : b.2 = []
  · rw [hb, overwrite_nil, overwrite_nil]
  have hlen := List.length_pos_iff.mpr ha
  refine List.ext_getElem? fun i => ?_
  simp only [overwrite_getElem? _ _ ha, overwrite_getElem? _ _ hb, overwrite_length _ _ ha,
    overwrite_length _ _ hb]
  have hmax : ∀ {n}, i < n → i < max old.length n := fun h => h.trans_le (le_max_right ..)
  -- before the first range, in it, between the two, from the second on
  rcases lt_or_ge i a.1 with h1 | h1
  · have hb1 : i < b.1 := by omega
    have hend : i < b.1 + b.2.length := by omega
    simp only [if_pos h1, if_pos hb1, if_pos (hmax (Nat.lt_add_right a.2.length h1)), if_pos (hmax hend)]
  · have ha1 := not_lt.mpr h1
    rcases lt_or_ge i (a.1 + a.2.length) with h2 | h2
    · have hb1 : i < b.1 := by omega
      simp only [if_neg ha1, if_pos h2, if_pos hb1, if_pos (hmax h2)]
    · have ha2 := not_lt.mpr h2
      rcases lt_or_ge i b.1 with h3 | h3
      · have hlong : i < max old.length (a.1 + a.2.length) ↔ i < old.length := by omega
        simp only [if_neg ha1, if_neg ha2, if_pos h3, hlong]
      · simp only [if_neg ha1, if_neg ha2, if_neg (not_lt.mpr h3)]

/-- Writes that have no position in common and replace nothing may change places. -/
lemma applyWrite_comm (old : FileData) {a b : Write} (ha : a.1 ≠ 0) (hb : b.1 ≠ 0) (h : Apart a b) :
    applyWrite (applyWrite old a) b = applyWrite (applyWrite old b) a := by
  simp only [applyWrite, if_neg ha, if_neg hb]
  rcases h with h | h
  · exact overwrite_comm old h
  · exact (overwrite_comm old h).symm

lemma inBounds_append {before after : List Write} (h : InBounds old (before ++ after)) :
    InBounds (before.foldl applyWrite old) after := by
  induction before generalizing old with
  | nil => exact h
  | cons w before ih => exact ih h.2

lemma foldl_covering (h : InBounds old ws) (hw : ∀ w ∈ ws, w.1 ≠ 0) (i : ℕ) :
    (ws.foldl applyWrite old)[i]? = (lastCovering ws i).or old[i]? := by
  induction ws generalizing old with
  | nil => rfl
  | cons w ws ih =>
    have hne : w.1 ≠ 0 := hw w List.mem_cons_self
    have hone : (applyWrite old w)[i]? = (covering w i).or old[i]? := by
      rw [applyWrite, if_neg hne]
      exact overwrite_covering h.1 i
    rw [List.foldl_cons, ih h.2 fun v hv => hw v (List.mem_cons_of_mem w hv), hone, lastCovering,
      Option.or_assoc]

/-- The last write at offset 0 is the beginning of what is in the file. -/
lemma foldl_truncated {before after : List Write} {d : FileData}
    (h : InBounds old (before ++ (0, d) :: after)) (hafter : ∀ w ∈ after, w.1 ≠ 0) (i : ℕ) :
    ((before ++ (0, d) :: after).foldl applyWrite old)[i]? = lastCovering ((0, d) :: after) i := by
  have hcut := (inBounds_append h).2
  have hd : applyWrite (before.foldl applyWrite old) (0, d) = d := if_pos rfl
  rw [hd] at hcut
  rw [List.foldl_append, List.foldl_cons, hd, foldl_covering hcut hafter, lastCovering]
  simp [covering]

namespace ReplicatedDSFSClientStub

variable {k k' : ReplicatedDSFSClientStub} {handle : ℤ}

lemma opened_mode {filename mode : String} {fetchData : Bool} {r : DSFSLogic.OpenResponse}
    (h : k.opened filename mode fetchData r = some k') :
    ∃ info, k'.activeHandles r.fileHandle = some info ∧ info.mode = mode := by
  simp only [opened] at h
  split_ifs at h
  · obtain rfl := Option.some.inj h
    exact ⟨_, Function.update_self .., rfl⟩
  · obtain ⟨e, -, rfl⟩ := Option.map_eq_some_iff.mp h
    exact ⟨_, Function.update_self .., rfl⟩

lemma writes_eq {info : ActiveHandle} (hinfo : k.activeHandles handle = some info) (hmode : info.mode = "w")
    (hold : k.cacheDir info.path = some old) (ws : List Write) : k.writes handle ws = some { k with
      cacheDir := Function.update k.cacheDir info.path (some (ws.foldl applyWrite old)) } := by
  induction ws generalizing k old with
  | nil =>
    rw [List.foldl_nil, ← hold, Function.update_eq_self]
    rfl
  | cons w ws ih =>
    have hone : (k.write handle w).map Prod.fst = some { k with
        cacheDir := Function.update k.cacheDir info.path (some (applyWrite old w)) } := by
      by_cases hzero : w.1 = 0
      · simp [write, hinfo, hmode, hzero, applyWrite]
      · simp [write, hinfo, hzero, hold, applyWrite]
    rw [writes, List.foldlM_cons, hone]
    refine (ih (k := { k with
      cacheDir := Function.update k.cacheDir info.path (some (applyWrite old w)) }) hinfo
      (Function.update_self ..)).trans ?_
    rw [Function.update_idem, List.foldl_cons]

lemma closeRequest_eq {info : ActiveHandle} (hinfo : k.activeHandles handle = some info)
    (hdata : k.cacheDir info.path = some data) :
    ∃ k₂ req, k.closeRequest handle = some (k₂, req) ∧ req.fileData = data := by
  simp only [closeRequest, hinfo, Option.bind_some, hdata, Option.map_some]
  exact ⟨_, _, rfl, rfl⟩

/-- After any writes within the file on a handle that was opened for writing, Close sends at each position
the byte of the last write that covers it among those from the last write at offset 0 on, and a byte of the
original only where there was no such write. Two adjacent writes to disjoint ranges, neither at offset 0, may
change places. -/
theorem writes_compose {filename : String} {fetchData : Bool} {r : DSFSLogic.OpenResponse}
    (hopen : k.opened filename "w" fetchData r = some k') {original : FileData}
    (horiginal : k'.cached r.fileHandle = some original) {ws : List Write} (hws : InBounds original ws) :
    ∃ k₁ k₂ req, k'.writes r.fileHandle ws = some k₁ ∧ k₁.closeRequest r.fileHandle = some (k₂, req) ∧
      ((∀ w ∈ ws, w.1 ≠ 0) → ∀ i, req.fileData[i]? = (lastCovering ws i).or original[i]?) ∧
      (∀ before d after, ws = before ++ (0, d) :: after → (∀ w ∈ after, w.1 ≠ 0) →
        ∀ i, req.fileData[i]? = lastCovering ((0, d) :: after) i) ∧
      ∀ before a b after, ws = before ++ a :: b :: after → a.1 ≠ 0 → b.1 ≠ 0 → Apart a b →
        k'.writes r.fileHandle (before ++ b :: a :: after) = some k₁ := by
  obtain ⟨info, hinfo, hmode⟩ := opened_mode hopen
  have hold : k'.cacheDir info.path = some original := by
    rwa [cached, hinfo, Option.bind_some] at horiginal
  have hwritten := writes_eq hinfo hmode hold ws
  obtain ⟨k₂, req, hclose, hdata⟩ := closeRequest_eq (k := { k' with
    cacheDir := Function.update k'.cacheDir info.path (some (ws.foldl applyWrite original)) }) hinfo
    (Function.update_self ..)
  refine ⟨_, k₂, req, hwritten, hclose, ?_, ?_, ?_⟩
  · intro hw i
    rw [hdata]
    exact foldl_covering hws hw i
  · rintro before d after rfl hafter i
    rw [hdata]
    exact foldl_truncated hws hafter i
  · rintro before a b after rfl ha hb hapart
    rw [writes_eq hinfo hmode hold]
    simp only [List.foldl_append, List.foldl_cons, applyWrite_comm _ ha hb hapart]

section Letters

/-- A client that has not opened anything. -/
def fresh : ReplicatedDSFSClientStub := ⟨"c", 0, fun _ => none, fun _ => none, fun _ => none⟩

/-- The server's answer: the file holds ABCDEF. -/
def letters : DSFSLogic.OpenResponse := ⟨1, [65, 66, 67, 68, 69, 70], 1⟩

def ready : ReplicatedDSFSClientStub := (fresh.opened "f" "w" true letters).getD fresh

lemma opened_ready : fresh.opened "f" "w" true letters = some ready := rfl

lemma inBounds_letters : InBounds letters.fileData [(2, [120, 121]), (0, [90, 91]), (1, [92, 93])] := by
  decide +kernel

theorem writes_compose_letters :
    ∃ k₁ k₂ req, ready.writes 1 [(2, [120, 121]), (0, [90, 91]), (1, [92, 93])] = some k₁ ∧
      k₁.closeRequest 1 = some (k₂, req) ∧
      ∀ i, req.fileData[i]? = lastCovering [(0, [90, 91]), (1, [92, 93])] i := by
  have horiginal : ready.cached letters.fileHandle = some letters.fileData := rfl
  obtain ⟨k₁, k₂, req, hwritten, hclose, -, hcut, -⟩ := writes_compose opened_ready horiginal inBounds_letters
  exact ⟨k₁, k₂, req, hwritten, hclose, hcut [(2, [120, 121])] [90, 91] [(1, [92, 93])] rfl (by decide)⟩

/-- A write of one byte at offset 0 leaves nothing of the bytes it does not cover, and so it does not commute
with a write to a range disjoint from its own. -/
theorem writes_compose_cut :
    (∃ k₁ k₂ req, ready.cached 1 = some letters.fileData ∧ InBounds letters.fileData [(0, [90])] ∧
      ready.writes 1 [(0, [90])] = some k₁ ∧ k₁.closeRequest 1 = some (k₂, req) ∧
      req.fileData[1]? ≠ (lastCovering [(0, [90])] 1).or letters.fileData[1]?) ∧
    Apart (0, [90]) (1, [91]) ∧ InBounds letters.fileData [(0, [90]), (1, [91])] ∧
      InBounds letters.fileData [(1, [91]), (0, [90])] ∧
      (ready.writes 1 [(0, [90]), (1, [91])]).bind (cached · 1) ≠
        (ready.writes 1 [(1, [91]), (0, [90])]).bind (cached · 1) :=
  ⟨⟨_, _, _, rfl, by decide +kernel, rfl, rfl, by decide +kernel⟩, .inl (Nat.le_refl 1), by decide +kernel,
    by decide +kernel, by decide +kernel⟩

end Letters

end ReplicatedDSFSClientStub

end DistributedStorage.Replication
