import DistributedStorage.Files.Socket
import DistributedStorage.Library.JsonText
import Mathlib.Tactic.SplitIfs

/-! Clients of the socket file system, each with its own cache, interleaved at their requests. -/

namespace DistributedStorage.Files

open Library Library.Runs

section Paths

open Library.Json

lemma cachePath_toList (f : String) (v : ℕ) :
    (cachePath f v).toList = f.toList ++ ['_', 'v'] ++ digits v ++ ['.', 'b', 'i', 'n'] := by
  rw [cachePath, String.toList_append, String.toList_append, String.toList_append, Nat.toString_eq_repr,
    Nat.toList_repr]
  rfl

lemma isCachedVersion_cachePath (f : String) (v : ℕ) : isCachedVersion f (cachePath f v) = true := by
  rw [isCachedVersion, Bool.and_eq_true, List.isPrefixOf_iff_prefix, List.isSuffixOf_iff_suffix,
    cachePath_toList, String.toList_append]
  refine ⟨⟨digits v ++ ['.', 'b', 'i', 'n'], ?_⟩, ⟨f.toList ++ ['_', 'v'] ++ digits v, rfl⟩⟩
  rw [← List.append_assoc]
  rfl

lemma takeWhile_digits (v : ℕ) (l : List Char) :
    ((digits v).reverse ++ 'v' :: l).takeWhile Char.isDigit = (digits v).reverse := by
  rw [List.takeWhile_append_of_pos fun c hc => digits_isDigit v c (List.mem_reverse.mp hc)]
  exact List.append_nil _

/-- The version is what stands between the last letter `v` and the suffix. -/
lemma cachePath_injective {f g : String} {v w : ℕ} (h : cachePath f v = cachePath g w) : f = g ∧ v = w := by
  have hlist := congrArg String.toList h
  rw [cachePath_toList, cachePath_toList] at hlist
  have hbody := List.append_cancel_right hlist
  have hrev := congrArg (List.takeWhile Char.isDigit) (congrArg List.reverse hbody)
  simp only [List.reverse_append, List.reverse_cons, List.reverse_nil, List.nil_append, List.cons_append,
    takeWhile_digits] at hrev
  have hdigits : digits v = digits w := List.reverse_injective hrev
  rw [hdigits] at hbody
  constructor
  · exact String.toList_inj.mp (List.append_cancel_right (List.append_cancel_right hbody))
  · have hv : Nat.ofDigitChars 10 (digits v) 0 = v := Nat.ofDigitChars_ten_toDigits
    have hw : Nat.ofDigitChars 10 (digits w) 0 = w := Nat.ofDigitChars_ten_toDigits
    rw [← hv, hdigits, hw]

end Paths

namespace DSFSLogic

variable {s : DSFSLogic} {f mode : String} {fetchData : Bool}

lemma withVersion_getD (s : DSFSLogic) (f g : String) : (s.withVersion f g).getD 1 = s.version g := by
  simp only [withVersion]
  split_ifs with hnone
  · rw [Function.update_apply]
    split_ifs with hg
    · simp [version, hg, hnone]
    · rfl
  · rfl

lemma withVersion_of_ne {g : String} (hg : g ≠ f) : s.withVersion f g = s.fileVersions g := by
  simp only [withVersion]
  split_ifs
  · exact Function.update_of_ne hg _ _
  · rfl

lemma openFile_spec (s : DSFSLogic) (f mode : String) (fetchData : Bool) :
    ((s.openFile f mode fetchData).1 = s ∧ ∃ message, (s.openFile f mode fetchData).2 = .error message) ∨
    ((s.disk f).isSome ∧ (s.openFile f mode fetchData).1.disk = s.disk ∧
      (s.openFile f mode fetchData).1.fileVersions = s.withVersion f ∧
      (s.openFile f mode fetchData).1.nextHandle = s.nextHandle + 1 ∧
      (s.openFile f mode fetchData).1.openFiles =
        Function.update s.openFiles s.nextHandle (some ⟨f, mode⟩) ∧
      (s.openFile f mode fetchData).2 =
        .ok ⟨s.nextHandle, if fetchData then s.content f else [], s.version f⟩) := by
  by_cases hmode : mode ≠ "r" ∧ mode ≠ "w"
  · left
    rw [openFile, if_pos hmode]
    exact ⟨rfl, _, rfl⟩
  · cases hdata : s.disk f with
    | none =>
      left
      rw [openFile, if_neg hmode, hdata]
      exact ⟨rfl, _, rfl⟩
    | some data =>
      right
      have hcontent : s.content f = data := by simp [content, hdata]
      rw [openFile, if_neg hmode, hdata, hcontent]
      refine ⟨rfl, rfl, rfl, rfl, rfl, ?_⟩
      exact congrArg (fun v => Except.ok (OpenResponse.mk _ _ v)) (s.withVersion_getD f f)

lemma closeFile_spec (s : DSFSLogic) (handle : ℤ) (data : FileData) :
    (s.openFiles handle = none ∧ (s.closeFile handle data).1 = s ∧
      ∃ message, (s.closeFile handle data).2 = .error message) ∨
    ∃ info, s.openFiles handle = some info ∧
      (s.closeFile handle data).1.nextHandle = s.nextHandle ∧
      (s.closeFile handle data).1.openFiles = Function.update s.openFiles handle none ∧
      ((info.mode = "w" ∧
        (s.closeFile handle data).1.disk = Function.update s.disk info.filename (some data) ∧
        (s.closeFile handle data).1.fileVersions =
          Function.update s.fileVersions info.filename (some (s.version info.filename + 1)) ∧
        (s.closeFile handle data).2 = .ok (s.version info.filename + 1)) ∨
      (info.mode ≠ "w" ∧ (s.closeFile handle data).1.disk = s.disk ∧
        (s.closeFile handle data).1.fileVersions = s.fileVersions ∧
        (s.closeFile handle data).2 = .ok (s.version info.filename))) := by
  cases hinfo : s.openFiles handle with
  | none =>
    left
    rw [closeFile, hinfo]
    exact ⟨rfl, rfl, _, rfl⟩
  | some info =>
    right
    refine ⟨info, rfl, ?_⟩
    rw [closeFile, hinfo]
    by_cases hmode : info.mode = "w"
    · simp only [if_pos hmode]
      exact ⟨trivial, trivial, .inl ⟨hmode, trivial, rfl, rfl⟩⟩
    · simp only [if_neg hmode]
      exact ⟨trivial, trivial, .inr ⟨hmode, trivial, trivial, rfl⟩⟩

end DSFSLogic

namespace DSFSClientStub

variable {k : DSFSClientStub} {f g : String} {v w : ℕ} {d data : FileData}

/-- Of the copies of `f` only the one that is kept stays; a copy of another file may go. -/
lemma deleteOldCachedVersions_dir
    (h : (k.deleteOldCachedVersions f (cachePath f v)).cacheDir (cachePath g w) = some d) :
    k.cacheDir (cachePath g w) = some d ∧ (g = f → w = v) := by
  simp only [deleteOldCachedVersions] at h
  split_ifs at h with hdrop
  refine ⟨h, ?_⟩
  rintro rfl
  by_contra hne
  exact hdrop ⟨isCachedVersion_cachePath g w, fun hpath => hne (cachePath_injective hpath).2⟩

lemma opened_dir {r : DSFSLogic.OpenResponse}
    (h : (k.opened f true r).cacheDir (cachePath g w) = some d) :
    g ≠ f ∧ k.cacheDir (cachePath g w) = some d ∨ g = f ∧ w = r.serverVersion ∧ d = r.fileData := by
  obtain ⟨hdir, hkept⟩ := deleteOldCachedVersions_dir h
  dsimp only at hdir
  rw [Function.update_apply] at hdir
  by_cases hg : g = f
  · right
    obtain rfl := hkept hg
    rw [if_pos (by rw [hg])] at hdir
    exact ⟨hg, rfl, (Option.some.inj hdir).symm⟩
  · left
    rw [if_neg fun hpath => hg (cachePath_injective hpath).1] at hdir
    exact ⟨hg, hdir⟩

lemma replace_dir (source target e : String) : (k.replace source target).cacheDir e =
    if e = source then none else if e = target then k.cacheDir source else k.cacheDir e := by
  simp only [replace, Function.update_apply]

/-- The copies after a Close: the one the handle had is now that of the new version. -/
lemma closed_dir {a : ActiveHandle} {u : ℕ} (hpath : a.path = cachePath a.filename u)
    (hdata : k.cacheDir a.path = some data)
    (h : (k.closed a v).cacheDir (cachePath g w) = some d) :
    g ≠ a.filename ∧ k.cacheDir (cachePath g w) = some d ∨ g = a.filename ∧ w = v ∧ d = data := by
  obtain ⟨hdir, hkept⟩ := deleteOldCachedVersions_dir h
  dsimp only at hdir
  by_cases hg : g = a.filename
  · right
    obtain rfl := hkept hg
    refine ⟨hg, rfl, ?_⟩
    rw [hg] at hdir
    split_ifs at hdir with hsame
    · rw [← hsame, hdata] at hdir
      exact (Option.some.inj hdir).symm
    · rw [replace_dir, if_neg fun heq => hsame heq.symm, if_pos rfl, hdata] at hdir
      exact (Option.some.inj hdir).symm
  · left
    refine ⟨hg, ?_⟩
    split_ifs at hdir with hsame
    · exact hdir
    · have hsource : cachePath g w ≠ a.path := fun heq => hg (cachePath_injective (heq.trans hpath)).1
      have htarget : cachePath g w ≠ cachePath a.filename v := fun heq => hg (cachePath_injective heq).1
      rwa [replace_dir, if_neg hsource, if_neg htarget] at hdir

@[simp] lemma closed_activeHandles {a : ActiveHandle} : (k.closed a v).activeHandles = k.activeHandles := by
  simp only [closed, deleteOldCachedVersions]
  split_ifs <;> rfl

lemma closed_cacheMetadata {a : ActiveHandle} : (k.closed a v).cacheMetadata =
    Function.update k.cacheMetadata a.filename (some ⟨v, cachePath a.filename v⟩) := by
  simp only [closed, deleteOldCachedVersions]
  split_ifs <;> rfl

end DSFSClientStub

/-- An Open that has heard the server's version and not yet asked for a handle. -/
structure PendingOpen where
  filename : String
  mode : String
  fetchData : Bool

/-- The server and its clients. `contents f v` is what the server held for `f` at version `v`, and
`unsaved k f` says that the client `k` has written to its copy of `f` and neither committed nor
downloaded it since. -/
structure SocketSystem where
  server : DSFSLogic
  clients : ℕ → DSFSClientStub
  pending : ℕ → Option PendingOpen
  contents : String → ℕ → FileData
  unsaved : ℕ → String → Bool

inductive Request
  | create (filename : String)
  | testVersion (k : ℕ) (filename mode : String)
  | openFile (k : ℕ)
  | write (k : ℕ) (handle : ℤ) (offset : ℕ) (data : FileData)
  | close (k : ℕ) (handle : ℤ)

namespace SocketSystem

def init (disk : String → Option FileData) : SocketSystem where
  server := .new disk
  clients _ := .new
  pending _ := none
  contents f _ := (disk f).getD []
  unsaved _ _ := false

def setClient (x : SocketSystem) (k : ℕ) (c : DSFSClientStub) : SocketSystem :=
  { x with clients := Function.update x.clients k c }

def setUnsaved (x : SocketSystem) (k : ℕ) (f : String) (b : Bool) : SocketSystem :=
  { x with unsaved := Function.update x.unsaved k (Function.update (x.unsaved k) f b) }

def opens (x : SocketSystem) (k : ℕ) (p : PendingOpen) : SocketSystem :=
  let out := x.server.openFile p.filename p.mode p.fetchData
  let y := { x with server := out.1, pending := Function.update x.pending k none }
  match out.2 with
  | .error _ => y
  | .ok r =>
    let z := y.setClient k ((y.clients k).opened p.filename p.fetchData r)
    if p.fetchData then z.setUnsaved k p.filename false else z

/-- The handle is given up first; without a local copy nothing is sent. -/
def closes (x : SocketSystem) (k : ℕ) (handle : ℤ) (h : ActiveHandle) : SocketSystem :=
  let c := { x.clients k with activeHandles := Function.update (x.clients k).activeHandles handle none }
  match c.cacheDir h.path with
  | none => x.setClient k c
  | some data =>
    let committed := (x.server.openFiles handle).any fun info => info.mode = "w"
    let out := x.server.closeFile handle data
    let y := { x with server := out.1 }
    match out.2 with
    | .error _ => y.setClient k c
    | .ok v =>
      let z := y.setClient k (c.closed h v)
      if committed then
        { z.setUnsaved k h.filename false with
          contents := Function.update z.contents h.filename (Function.update (z.contents h.filename) v data) }
      else z

/-- Only handles that were opened for writing are written to, and a client makes one call at a time. -/
def step (x : SocketSystem) : Request → Option SocketSystem
  | .create f => some { x with server := (x.server.createFile f).1 }
  | .testVersion k f mode =>
    if (x.pending k).isNone ∧ (mode = "r" ∨ mode = "w") then
      let fetchData := (x.clients k).fetches f (x.server.testVersionNumber f)
      some { x with pending := Function.update x.pending k (some ⟨f, mode, fetchData⟩) }
    else none
  | .openFile k => (x.pending k).map (x.opens k)
  | .write k handle offset data =>
    match x.pending k, x.server.openFiles handle, (x.clients k).activeHandles handle with
    | none, some info, some h =>
      if info.mode = "w" then
        ((x.clients k).write handle offset data).map fun c => (x.setClient k c).setUnsaved k h.filename true
      else none
    | _, _, _ => none
  | .close k handle =>
    match x.pending k, (x.clients k).activeHandles handle with
    | none, some h => some (x.closes k handle h)
    | _, _ => none

/-- A handle that was opened for reading is closed only while the client's copy holds what the server
holds, or has been written to. -/
def UpToDate (x : SocketSystem) : Request → Prop
  | .close k handle =>
    ∀ h ∈ (x.clients k).activeHandles handle, ∀ data ∈ (x.clients k).cacheDir h.path,
      ∀ info ∈ x.server.openFiles handle,
        info.mode = "w" ∨ x.unsaved k h.filename = true ∨ data = x.server.content h.filename
  | _ => True

/-- What a client keeps fits the server's history. -/
structure Client (server : DSFSLogic) (contents : String → ℕ → FileData) (unsaved : String → Bool)
    (c : DSFSClientStub) : Prop where
  handle : ∀ n h, c.activeHandles n = some h →
    n < server.nextHandle ∧ (∃ v, h.path = cachePath h.filename v) ∧
      ∀ info, server.openFiles n = some info → info.filename = h.filename
  path : ∀ f e, c.cacheMetadata f = some e → e.path = cachePath f e.version
  copy : ∀ f v data, c.cacheDir (cachePath f v) = some data →
    v ≤ server.version f ∧ (unsaved f = false → data = contents f v)

structure Coherent (x : SocketSystem) : Prop where
  current : ∀ f, x.contents f (x.server.version f) = x.server.content f
  absent : ∀ f, x.server.disk f = none → x.server.fileVersions f = none
  fresh : ∀ n, x.server.openFiles n ≠ none → n < x.server.nextHandle
  client : ∀ k, Client x.server x.contents (x.unsaved k) (x.clients k)

lemma init_coherent (disk : String → Option FileData) : (init disk).Coherent where
  current f := rfl
  absent f hf := rfl
  fresh n hn := absurd rfl hn
  client k := ⟨fun n h hn => (by cases hn), fun f e he => (by cases he), fun f v data hd => by cases hd⟩

section Server

variable {s : DSFSLogic} {c : DSFSClientStub} {contents : String → ℕ → FileData} {unsaved : String → Bool}

/-- What one client keeps stays in place while the others work: handles are not handed out twice, versions
do not go down, and old contents stay. -/
lemma Client.frame (h : Client s contents unsaved c) {s' : DSFSLogic} {contents' : String → ℕ → FileData}
    (hnext : s.nextHandle ≤ s'.nextHandle)
    (hopen : ∀ n, n < s.nextHandle → ∀ info, s'.openFiles n = some info → s.openFiles n = some info)
    (hversion : ∀ f, s.version f ≤ s'.version f)
    (hcontents : ∀ f v, v ≤ s.version f → contents' f v = contents f v) : Client s' contents' unsaved c where
  handle n a ha := by
    obtain ⟨hlt, hpath, hinfo⟩ := h.handle n a ha
    exact ⟨Int.lt_of_lt_of_le hlt hnext, hpath, fun info hi => hinfo info (hopen n hlt info hi)⟩
  path := h.path
  copy f v data hd := by
    obtain ⟨hle, hsame⟩ := h.copy f v data hd
    exact ⟨Nat.le_trans hle (hversion f), fun hu => (hsame hu).trans (hcontents f v hle).symm⟩

variable {c' : DSFSClientStub} {unsaved' : String → Bool} {f : String} {v : ℕ}

/-- A client has got a new copy of `f`, the only one it keeps. -/
lemma Client.refresh (h : Client s contents unsaved c) (hv : v ≤ s.version f)
    (hmeta : c'.cacheMetadata = Function.update c.cacheMetadata f (some ⟨v, cachePath f v⟩))
    (hunsaved : ∀ g, g ≠ f → unsaved' g = unsaved g)
    (hdir : ∀ g w d, c'.cacheDir (cachePath g w) = some d →
      g ≠ f ∧ c.cacheDir (cachePath g w) = some d ∨ g = f ∧ w = v ∧ (unsaved' f = false → d = contents f v))
    (hhandle : ∀ n a, c'.activeHandles n = some a → c.activeHandles n = some a ∨
      n < s.nextHandle ∧ (∃ w, a.path = cachePath a.filename w) ∧
        ∀ info, s.openFiles n = some info → info.filename = a.filename) :
    Client s contents unsaved' c' where
  handle n a ha := by
    obtain hold | hnew := hhandle n a ha
    · exact h.handle n a hold
    · exact hnew
  path g e he := by
    rw [hmeta] at he
    obtain ⟨rfl, rfl⟩ | ⟨-, he⟩ := of_update_some he
    · rfl
    · exact h.path g e he
  copy g w d hd := by
    obtain ⟨hg, hold⟩ | ⟨rfl, rfl, hsame⟩ := hdir g w d hd
    · obtain ⟨hle, hsame⟩ := h.copy g w d hold
      exact ⟨hle, fun hu => hsame (hunsaved g hg ▸ hu)⟩
    · exact ⟨hv, hsame⟩

end Server

variable {x y : SocketSystem} {k : ℕ} {f : String}

lemma Coherent.creates (h : x.Coherent) (f : String) :
    Coherent { x with server := (x.server.createFile f).1 } := by
  by_cases hthere : (x.server.disk f).isSome
  · have hsame : (x.server.createFile f).1 = x.server := by rw [DSFSLogic.createFile, if_pos hthere]
    rw [hsame]
    exact ⟨h.current, h.absent, h.fresh, h.client⟩
  · have hnone : x.server.disk f = none := by simpa using hthere
    have hversion : ∀ g, (x.server.createFile f).1.version g = x.server.version g := by
      intro g
      rw [DSFSLogic.createFile, if_neg hthere]
      simp only [DSFSLogic.version, Function.update_apply]
      split_ifs with hg
      · rw [hg, h.absent f hnone]
        rfl
      · rfl
    have hcontent : ∀ g, (x.server.createFile f).1.content g = x.server.content g := by
      intro g
      rw [DSFSLogic.createFile, if_neg hthere]
      simp only [DSFSLogic.content, Function.update_apply]
      split_ifs with hg
      · rw [hg, hnone]
        rfl
      · rfl
    have hopen : (x.server.createFile f).1.openFiles = x.server.openFiles := by
      rw [DSFSLogic.createFile, if_neg hthere]
    have hnext : (x.server.createFile f).1.nextHandle = x.server.nextHandle := by
      rw [DSFSLogic.createFile, if_neg hthere]
    refine ⟨fun g => ?_, fun g hg => ?_, fun n hn => ?_, fun k => ?_⟩
    · rw [hversion, hcontent]
      exact h.current g
    · simp only [DSFSLogic.createFile, if_neg hthere, Function.update_apply] at hg ⊢
      split_ifs at hg ⊢
      exact h.absent g hg
    · rw [hnext]
      exact h.fresh n (hopen ▸ hn)
    · refine (h.client k).frame (Int.le_of_eq hnext.symm) (fun n _ info hi => hopen ▸ hi)
        (fun g => Nat.le_of_eq (hversion g).symm) fun _ _ _ => rfl

lemma Coherent.registers (h : x.Coherent) {s : DSFSLogic} {mode : String} (hdisk : s.disk = x.server.disk)
    (hthere : (x.server.disk f).isSome) (hversions : s.fileVersions = x.server.withVersion f)
    (hnext : s.nextHandle = x.server.nextHandle + 1)
    (hopen : s.openFiles = Function.update x.server.openFiles x.server.nextHandle (some ⟨f, mode⟩)) :
    Coherent { x with server := s } := by
  have hversion : ∀ g, s.version g = x.server.version g := by
    intro g
    rw [DSFSLogic.version, hversions, DSFSLogic.withVersion_getD]
  refine ⟨fun g => ?_, fun g hg => ?_, fun n hn => ?_, fun k => ?_⟩
  · rw [hversion, DSFSLogic.content, hdisk]
    exact h.current g
  · rw [hdisk] at hg
    have hne : g ≠ f := by
      rintro rfl
      simp [hg] at hthere
    rw [hversions, DSFSLogic.withVersion_of_ne hne]
    exact h.absent g hg
  · rw [hopen, Function.update_apply] at hn
    rw [hnext]
    split_ifs at hn with hnew
    · omega
    · exact Int.lt_add_one_of_le (Int.le_of_lt (h.fresh n hn))
  · have hle : x.server.nextHandle ≤ s.nextHandle := by omega
    refine (h.client k).frame hle (fun n hlt info hi => ?_) (fun g => Nat.le_of_eq (hversion g).symm)
      fun _ _ _ => rfl
    rw [hopen, Function.update_of_ne (Int.ne_of_lt hlt)] at hi
    exact hi

lemma Coherent.setClient (h : x.Coherent) {c : DSFSClientStub} (hserver : y.server = x.server)
    (hcontents : y.contents = x.contents) (hclients : y.clients = Function.update x.clients k c)
    (hunsaved : ∀ j, j ≠ k → y.unsaved j = x.unsaved j)
    (hc : Client x.server x.contents (y.unsaved k) c) : y.Coherent where
  current := by
    rw [hserver, hcontents]
    exact h.current
  absent := by
    rw [hserver]
    exact h.absent
  fresh := by
    rw [hserver]
    exact h.fresh
  client j := by
    rw [hserver, hcontents, hclients]
    by_cases hj : j = k
    · subst hj
      rw [Function.update_self]
      exact hc
    · rw [Function.update_of_ne hj, hunsaved j hj]
      exact h.client j

lemma Coherent.opens (h : x.Coherent) (p : PendingOpen) : (x.opens k p).Coherent := by
  obtain ⟨hs, message, hout⟩ | ⟨hthere, hdisk, hversions, hnext, hopen, hout⟩ :=
    x.server.openFile_spec p.filename p.mode p.fetchData
  · simp only [SocketSystem.opens, hs, hout]
    exact ⟨h.current, h.absent, h.fresh, h.client⟩
  · have hreg := h.registers hdisk hthere hversions hnext hopen
    have hclient := hreg.client k
    have hversion : ∀ g, (x.server.openFile p.filename p.mode p.fetchData).1.version g =
        x.server.version g := by
      intro g
      rw [DSFSLogic.version, hversions, DSFSLogic.withVersion_getD]
    have hinfo : ∀ info, (x.server.openFile p.filename p.mode p.fetchData).1.openFiles
        x.server.nextHandle = some info → info.filename = p.filename := by
      intro info hi
      rw [hopen, Function.update_self] at hi
      cases hi
      rfl
    have hlt : x.server.nextHandle < (x.server.openFile p.filename p.mode p.fetchData).1.nextHandle := by
      omega
    simp only [SocketSystem.opens, hout]
    cases hfetch : p.fetchData with
    | true =>
      rw [hfetch] at hreg hclient hversion hinfo hlt
      simp only [if_true]
      refine hreg.setClient rfl rfl rfl (fun j hj => Function.update_of_ne hj _ _) ?_
      simp only [setUnsaved, Function.update_self]
      refine hclient.refresh (Nat.le_of_eq (hversion p.filename).symm) rfl
        (fun g hg => Function.update_of_ne hg _ _) (fun g w d hd => ?_) fun n a ha => ?_
      · obtain ⟨hg, hold⟩ | ⟨rfl, rfl, rfl⟩ := DSFSClientStub.opened_dir hd
        · exact .inl ⟨hg, hold⟩
        · exact .inr ⟨rfl, rfl, fun _ => (h.current _).symm⟩
      · simp only [DSFSClientStub.opened, if_true, DSFSClientStub.deleteOldCachedVersions,
          Function.update_apply] at ha
        split_ifs at ha with hn
        · cases ha
          exact .inr (hn ▸ ⟨hlt, ⟨_, rfl⟩, hinfo⟩)
        · exact .inl ha
    | false =>
      rw [hfetch] at hreg hclient hversion hinfo hlt
      simp only [Bool.false_eq_true, if_false]
      refine hreg.setClient rfl rfl rfl (fun j hj => rfl) ?_
      simp only [DSFSClientStub.opened, Bool.false_eq_true, if_false]
      cases hm : (x.clients k).cacheMetadata p.filename with
      | none => exact hclient
      | some e =>
        refine ⟨fun n a ha => ?_, hclient.path, hclient.copy⟩
        obtain ⟨rfl, rfl⟩ | ⟨-, ha⟩ := of_update_some ha
        · exact ⟨hlt, ⟨_, hclient.path _ e hm⟩, hinfo⟩
        · exact hclient.handle n a ha

lemma Coherent.writes (h : x.Coherent) {handle : ℤ} {a : ActiveHandle} {offset : ℕ} {data : FileData}
    {c : DSFSClientStub} (ha : (x.clients k).activeHandles handle = some a)
    (hc : (x.clients k).write handle offset data = some c) :
    ((x.setClient k c).setUnsaved k a.filename true).Coherent := by
  simp only [DSFSClientStub.write, ha, Option.bind_some, Option.map_eq_some_iff] at hc
  obtain ⟨old, hold, rfl⟩ := hc
  obtain ⟨-, ⟨v, hpath⟩, -⟩ := (h.client k).handle handle a ha
  refine h.setClient rfl rfl rfl (fun j hj => Function.update_of_ne hj _ _) ?_
  simp only [setUnsaved, Function.update_self]
  refine ⟨(h.client k).handle, (h.client k).path, fun g w d hd => ?_⟩
  dsimp only [SocketSystem.setClient] at hd ⊢
  rw [Function.update_apply] at hd
  split_ifs at hd with hsame
  · obtain ⟨rfl, rfl⟩ := cachePath_injective (hsame.trans hpath)
    refine ⟨((h.client k).copy _ _ old (hpath ▸ hold)).1, fun hu => ?_⟩
    rw [Function.update_self] at hu
    cases hu
  · obtain ⟨hle, hcopy⟩ := (h.client k).copy g w d hd
    refine ⟨hle, fun hu => hcopy ?_⟩
    rw [Function.update_apply] at hu
    split_ifs at hu
    exact hu

lemma Coherent.commits (h : x.Coherent) {s : DSFSLogic} {handle : ℤ} {data : FileData}
    (hnext : s.nextHandle = x.server.nextHandle)
    (hopen : s.openFiles = Function.update x.server.openFiles handle none)
    (hdisk : s.disk = Function.update x.server.disk f (some data))
    (hversions : s.fileVersions = Function.update x.server.fileVersions f (some (x.server.version f + 1))) :
    Coherent { x with
      server := s
      contents := Function.update x.contents f
        (Function.update (x.contents f) (x.server.version f + 1) data) } := by
  have hversion : ∀ g, s.version g = if g = f then x.server.version f + 1 else x.server.version g := by
    intro g
    rw [DSFSLogic.version, hversions, Function.update_apply]
    split_ifs <;> rfl
  have hleft : ∀ n info, s.openFiles n = some info → x.server.openFiles n = some info := by
    intro n info hi
    rw [hopen] at hi
    exact (of_update_none hi).2
  refine ⟨fun g => ?_, fun g hg => ?_, fun n hn => ?_, fun k => ?_⟩
  · dsimp only
    rw [hversion, DSFSLogic.content, hdisk, Function.update_apply, Function.update_apply]
    split_ifs with hg
    · rw [Function.update_self]
      rfl
    · exact h.current g
  · rw [hdisk, Function.update_apply] at hg
    split_ifs at hg with hne
    rw [hversions, Function.update_of_ne hne]
    exact h.absent g hg
  · rw [hnext]
    obtain ⟨info, hi⟩ := Option.ne_none_iff_exists'.mp hn
    exact h.fresh n (by rw [hleft n info hi]; exact Option.some_ne_none info)
  · refine (h.client k).frame (Int.le_of_eq hnext.symm) (fun n _ => hleft n) (fun g => ?_) fun g w hw => ?_
    · rw [hversion]
      split_ifs with hg
      · rw [hg]
        exact Nat.le_succ _
      · exact Nat.le_refl _
    · dsimp only
      rw [Function.update_apply]
      split_ifs with hg
      · subst hg
        rw [Function.update_of_ne (by omega)]
      · rfl

lemma Coherent.releases (h : x.Coherent) {s : DSFSLogic} {handle : ℤ}
    (hnext : s.nextHandle = x.server.nextHandle)
    (hopen : s.openFiles = Function.update x.server.openFiles handle none) (hdisk : s.disk = x.server.disk)
    (hversions : s.fileVersions = x.server.fileVersions) : Coherent { x with server := s } := by
  have hversion : ∀ g, s.version g = x.server.version g := fun g => by rw [DSFSLogic.version, hversions]; rfl
  have hleft : ∀ n info, s.openFiles n = some info → x.server.openFiles n = some info := by
    intro n info hi
    rw [hopen] at hi
    exact (of_update_none hi).2
  refine ⟨fun g => ?_, fun g hg => ?_, fun n hn => ?_, fun k => ?_⟩
  · rw [hversion, DSFSLogic.content, hdisk]
    exact h.current g
  · rw [hversions]
    exact h.absent g (hdisk ▸ hg)
  · rw [hnext]
    obtain ⟨info, hi⟩ := Option.ne_none_iff_exists'.mp hn
    exact h.fresh n (by rw [hleft n info hi]; exact Option.some_ne_none info)
  · exact (h.client k).frame (Int.le_of_eq hnext.symm) (fun n _ => hleft n)
      (fun g => Nat.le_of_eq (hversion g).symm) fun _ _ _ => rfl

lemma Client.forget {s : DSFSLogic} {contents : String → ℕ → FileData} {unsaved : String → Bool}
    {c : DSFSClientStub} (h : Client s contents unsaved c) (handle : ℤ) :
    Client s contents unsaved
      { c with activeHandles := Function.update c.activeHandles handle none } where
  handle n a ha := h.handle n a (of_update_none ha).2
  path := h.path
  copy := h.copy

lemma Coherent.closes (h : x.Coherent) {handle : ℤ} {a : ActiveHandle}
    (ha : (x.clients k).activeHandles handle = some a) (ho : x.UpToDate (.close k handle)) :
    (x.closes k handle a).Coherent := by
  obtain ⟨-, ⟨v, hpath⟩, hname⟩ := (h.client k).handle handle a ha
  cases hcopy : (x.clients k).cacheDir a.path with
  | none =>
    simp only [SocketSystem.closes, hcopy]
    exact h.setClient rfl rfl rfl (fun _ _ => rfl) ((h.client k).forget handle)
  | some data =>
    obtain ⟨hnone, hs, message, hout⟩ | ⟨info, hinfo, hnext, hopen, hmode⟩ :=
      x.server.closeFile_spec handle data
    · simp only [SocketSystem.closes, hcopy, hout, hs]
      exact h.setClient rfl rfl rfl (fun _ _ => rfl) ((h.client k).forget handle)
    · have hfile : info.filename = a.filename := hname info hinfo
      rw [hfile] at hmode
      obtain ⟨hw, hdisk, hversions, hout⟩ | ⟨hr, hdisk, hversions, hout⟩ := hmode
      · have hcommit := h.commits hnext hopen hdisk hversions
        have hversion : (x.server.closeFile handle data).1.version a.filename =
            x.server.version a.filename + 1 := by
          rw [DSFSLogic.version, hversions, Function.update_self]
          rfl
        simp only [SocketSystem.closes, hcopy, hout, hinfo, Option.any_some, hw, decide_true, if_true]
        refine hcommit.setClient rfl rfl rfl (fun j hj => Function.update_of_ne hj _ _) ?_
        simp only [setUnsaved, Function.update_self]
        refine ((hcommit.client k).forget handle).refresh (Nat.le_of_eq hversion.symm)
          DSFSClientStub.closed_cacheMetadata (fun g hg => Function.update_of_ne hg _ _)
          (fun g w d hd => ?_) fun n b hb => .inl (DSFSClientStub.closed_activeHandles ▸ hb)
        obtain ⟨hg, hold⟩ | ⟨rfl, rfl, rfl⟩ := DSFSClientStub.closed_dir hpath (by exact hcopy) hd
        · exact .inl ⟨hg, hold⟩
        · refine .inr ⟨rfl, rfl, fun _ => ?_⟩
          dsimp only
          rw [Function.update_self, Function.update_self]
      · have hrelease := h.releases hnext hopen hdisk hversions
        have hversion : (x.server.closeFile handle data).1.version a.filename =
            x.server.version a.filename := by
          rw [DSFSLogic.version, hversions]
          rfl
        simp only [SocketSystem.closes, hcopy, hout, hinfo, Option.any_some, hr, decide_false,
          Bool.false_eq_true, if_false]
        refine hrelease.setClient rfl rfl rfl (fun j hj => rfl) ?_
        refine ((hrelease.client k).forget handle).refresh (Nat.le_of_eq hversion.symm)
          DSFSClientStub.closed_cacheMetadata (fun g hg => rfl)
          (fun g w d hd => ?_) fun n b hb => .inl (DSFSClientStub.closed_activeHandles ▸ hb)
        obtain ⟨hg, hold⟩ | ⟨rfl, rfl, rfl⟩ := DSFSClientStub.closed_dir hpath (by exact hcopy) hd
        · exact .inl ⟨hg, hold⟩
        · refine .inr ⟨rfl, rfl, fun hu => ?_⟩
          obtain hmode | hdirty | hsame := ho a ha d hcopy info hinfo
          · exact absurd hmode hr
          · cases hdirty.symm.trans hu
          · exact hsame.trans (h.current _).symm

lemma Coherent.step (h : x.Coherent) {r : Request} (ho : x.UpToDate r) (hs : x.step r = some y) :
    y.Coherent := by
  cases r with
  | create f =>
    obtain rfl := Option.some.inj hs
    exact h.creates f
  | testVersion k f mode =>
    simp only [SocketSystem.step] at hs
    split_ifs at hs
    obtain rfl := Option.some.inj hs
    exact ⟨h.current, h.absent, h.fresh, h.client⟩
  | openFile k =>
    obtain ⟨p, -, rfl⟩ := Option.map_eq_some_iff.mp hs
    exact h.opens p
  | write k handle offset data =>
    simp only [SocketSystem.step] at hs
    split at hs
    · rename_i ha
      split_ifs at hs
      obtain ⟨c, hc, rfl⟩ := Option.map_eq_some_iff.mp hs
      exact h.writes ha hc
    · cases hs
  | close k handle =>
    simp only [SocketSystem.step] at hs
    split at hs
    · rename_i ha
      obtain rfl := Option.some.inj hs
      exact h.closes ha ho
    · cases hs

instance (x : SocketSystem) (r : Request) : Decidable (x.UpToDate r) :=
  match r with
  | .close k handle =>
    inferInstanceAs (Decidable (∀ h ∈ (x.clients k).activeHandles handle,
      ∀ data ∈ (x.clients k).cacheDir h.path, ∀ info ∈ x.server.openFiles handle,
        info.mode = "w" ∨ x.unsaved k h.filename = true ∨ data = x.server.content h.filename))
  | .create _ | .testVersion .. | .openFile _ | .write .. => isTrue trivial

def oneNote (filename : String) : Option FileData := if filename = "a" then some [0] else none

/-- The client 1 commits a new version. -/
def commit (handle : ℤ) (data : FileData) : List Request :=
  [.testVersion 1 "a" "w", .openFile 1, .write 1 handle 0 data, .close 1 handle]

def readClose (handle : ℤ) : List Request := [.testVersion 0 "a" "r", .openFile 0, .close 0 handle]

end SocketSystem

end DistributedStorage.Files
