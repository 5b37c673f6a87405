import DistributedStorage.Replication.Cluster
import Mathlib.Data.List.Basic
import Mathlib.Tactic.SplitIfs

/-! What the primary, the handlers under way and the backups agree on while the steps come in an order that
the code does not enforce. -/

namespace DistributedStorage.Replication

open Library Library.Runs Files

namespace ReplicatedDSFSServer

variable {s : ReplicatedDSFSServer} {f g : String} {data : FileData} {v : ℕ}

@[simp] lemma writeFile_version : (s.writeFile f data).version g = s.version g := rfl

@[simp] lemma setVersion_disk : (s.setVersion f v).disk = s.disk := rfl

@[simp] lemma setVersion_content : (s.setVersion f v).content g = s.content g := rfl

lemma writeFile_content : (s.writeFile f data).content g = if g = f then data else s.content g := by
  simp only [content, writeFile, Function.update_apply]
  split_ifs <;> rfl

lemma setVersion_version : (s.setVersion f v).version g = if g = f then v else s.version g := by
  simp only [version, setVersion, Function.update_apply]
  split_ifs <;> rfl

lemma writeFile_disk : ((s.writeFile f data).disk g).isSome = (decide (g = f) || (s.disk g).isSome) := by
  simp only [writeFile, Function.update_apply]
  split_ifs with hg <;> simp [hg]

/-- A step that leaves the files and, for whoever asks, their versions as they are. -/
structure Quiet (s s' : ReplicatedDSFSServer) : Prop where
  disk : s'.disk = s.disk
  version : ∀ f, s'.version f = s.version f
  present : ∀ f, s'.fileVersions f ≠ none → s.fileVersions f ≠ none ∨ (s.disk f).isSome

lemma Quiet.refl (s : ReplicatedDSFSServer) : s.Quiet s := ⟨rfl, fun _ => rfl, fun _ h => .inl h⟩

lemma Quiet.content {s' : ReplicatedDSFSServer} (h : s.Quiet s') (f : String) : s'.content f = s.content f := by
  rw [ReplicatedDSFSServer.content, h.disk]
  rfl

lemma storeResponse_quiet (s : ReplicatedDSFSServer) (who : Caller) (r : Reply) :
    s.Quiet (s.storeResponse who r) := by
  simp only [storeResponse]
  split_ifs
  · exact ⟨rfl, fun _ => rfl, fun _ h => .inl h⟩
  · exact Quiet.refl s

lemma openHandle_quiet (s : ReplicatedDSFSServer) (f mode : String) (data : FileData) :
    s.Quiet (s.openHandle f mode data).1 := by
  simp only [openHandle]
  split_ifs with hfirst
  · refine ⟨rfl, fun g => ?_, fun g hg => ?_⟩
    · rw [setVersion_version]
      split_ifs with hg
      · rw [version, hg, hfirst.1]
        rfl
      · rfl
    · by_cases hgf : g = f
      · exact .inr (hgf ▸ hfirst.2)
      · refine .inl fun hnone => hg ?_
        simp only [setVersion, Function.update_of_ne hgf]
        exact hnone
  · exact ⟨rfl, fun _ => rfl, fun _ h => .inl h⟩

end ReplicatedDSFSServer

/-- The steps that write a file or a version at the primary. -/
def Call.writes : Call → Bool
  | .createFile .. | .createVersion .. | .closeFile .. | .closeUpdate .. => true
  | _ => false

lemma ReplicatedDSFSServer.run_quiet (peers : List ℕ) (s : ReplicatedDSFSServer) {c : Call}
    (hc : c.writes = false) : s.Quiet (s.run peers c).1 := by
  cases c with
  | createFile f who => cases hc
  | createVersion f who => cases hc
  | closeFile f data who => cases hc
  | closeUpdate f data who => cases hc
  | createStore who => exact s.storeResponse_quiet who _
  | closeStore committed n who => exact s.storeResponse_quiet who _
  | openSection f mode data => exact s.openHandle_quiet f mode data
  | createDedup f who =>
    simp only [run]
    split <;> exact Quiet.refl s
  | closeDedup handle data who =>
    simp only [run]
    split <;> exact Quiet.refl s
  | closePop handle data who =>
    simp only [run]
    split
    · exact Quiet.refl s
    · exact ⟨rfl, fun _ => rfl, fun _ h => .inl h⟩
  | «open» f mode fetchData =>
    simp only [run]
    split_ifs <;> exact Quiet.refl s
  | _ => exact Quiet.refl s

/-- The file and the bytes of a Close that has written and not yet set the version. -/
def Call.updates : Call → Option (String × FileData)
  | .closeUpdate f data _ => some (f, data)
  | _ => none

namespace Cluster

/-- The order the code leaves to chance. A Create truncates and resets, at the primary and at a backup, only
what nobody has written. A Close that was overwritten sets its version before the one that overwrote it. A
backup gets versions in rising order, and misses none between the snapshot and the start of its server. -/
def InOrder (x : Cluster) (t : ℕ) : Call → Prop
  | .createFile f _ => x.primary.content f = []
  | .createVersion f _ => x.primary.version f = 1
  | .closeUpdate f data _ => x.primary.content f = data ∨
      ∃ p ∈ x.calls.items, p.1 ≠ t ∧ p.2.updates = some (f, x.primary.content f)
  | .replicateCreateFile f _ (b :: _) => (x.backups b).content f = []
  | .replicateCreateVersion f _ (b :: _) => (x.backups b).version f = 1
  | .replicateWrite f _ newVersion _ (b :: _) =>
    match x.phase b with
    | .down => True
    | .listening => (x.backups b).version f ≤ newVersion
    | _ => newVersion ≤ x.backupVersion b f
  | _ => True

/-- SyncState is answered while no Close of a file with a version stands between its write and its version
update. -/
def Orderly (x : Cluster) : Label → Prop
  | .run t => ∀ c ∈ x.calls.get t, x.InOrder t c
  | .sync _ => ∀ p ∈ x.calls.items, ∀ u ∈ p.2.updates, x.primary.fileVersions u.1 = none
  | _ => True

/-- A backup has a version or a later one; one that is down has nothing to answer for. -/
def Covered (x : Cluster) (b : ℕ) (f : String) (n : ℕ) : Prop :=
  x.phase b = .down ∨ n ≤ x.backupVersion b f

/-- A committed write: its version is in use and its bytes are recorded. -/
def Written (x : Cluster) (f : String) (data : FileData) (n : ℕ) : Prop :=
  1 < n ∧ n ≤ x.primary.version f ∧ data = x.contents f n ∧ (x.primary.disk f).isSome

/-- What a handler under way has done. -/
def Made (peers : List ℕ) (x : Cluster) : Call → Prop
  | .createVersion f _ | .replicateCreate f _ _ | .closeUpdate f _ _ => (x.primary.disk f).isSome
  | .replicateCreateFile f _ l | .replicateCreateVersion f _ l =>
    (x.primary.disk f).isSome ∧ ∀ b ∈ l.head?, x.phase b = .listening
  | .replicateWrite f data n _ l => x.Written f data n ∧ ∀ b ∈ peers, b ∉ l → x.Covered b f n
  | .closeStore (some (f, data)) n _ => x.Written f data n ∧ ∀ b ∈ peers, x.Covered b f n
  | _ => True

/-- The invariant; `steady b` says that the backup has been up from the start. -/
structure Replicated (peers : List ℕ) (steady : ℕ → Prop) (x : Cluster) : Prop where
  up : ∀ b, steady b → x.phase b = .listening
  positive : ∀ f, 0 < x.primary.version f
  present : ∀ f, x.primary.fileVersions f ≠ none → (x.primary.disk f).isSome
  made : ∀ t c, x.calls.get t = some c → Made peers x c
  latest : ∀ f, x.primary.content f = x.contents f (x.primary.version f) ∨
    ∃ t c, x.calls.get t = some c ∧ c.updates = some (f, x.primary.content f)
  version : ∀ b f, x.phase b ≠ .down → x.backupVersion b f ≤ x.primary.version f
  content : ∀ b f, x.phase b ≠ .down → 1 < x.backupVersion b f ∨ steady b →
    x.backupContent b f = x.contents f (x.backupVersion b f)
  held : ∀ b f, x.phase b ≠ .down → 1 < x.backupVersion b f → (x.backupDisk b f).isSome
  forgotten : ∀ b f, (x.phase b = .down ∨ ∃ files, x.phase b = .synced files) →
    (x.backups b).fileVersions f = none
  acked : ∀ w ∈ x.acked, x.Written w.1 w.2.1 w.2.2 ∧ ∀ b ∈ peers, x.Covered b w.1 w.2.2

/-- What a step keeps. -/
structure Grows (x y : Cluster) : Prop where
  disk : ∀ f, (x.primary.disk f).isSome → (y.primary.disk f).isSome
  version : ∀ f, x.primary.version f ≤ y.primary.version f
  contents : ∀ f n, n ≤ x.primary.version f → y.contents f n = x.contents f n
  listening : ∀ b, x.phase b = .listening → y.phase b = .listening
  covered : ∀ b f n, n ≤ x.primary.version f → x.Covered b f n → y.Covered b f n

variable {peers : List ℕ} {steady : ℕ → Prop} {x y : Cluster}

lemma Written.grow {f : String} {data : FileData} {n : ℕ} (h : x.Written f data n) (g : x.Grows y) :
    y.Written f data n := by
  obtain ⟨hn, hle, hdata, hdisk⟩ := h
  exact ⟨hn, Nat.le_trans hle (g.version f), hdata.trans (g.contents f n hle).symm, g.disk f hdisk⟩

lemma Written.covered {f : String} {data : FileData} {n b : ℕ} (h : x.Written f data n) (g : x.Grows y)
    (hc : x.Covered b f n) : y.Covered b f n :=
  g.covered b f n h.2.1 hc

lemma Made.grow {c : Call} (h : x.Made peers c) (g : x.Grows y) : y.Made peers c := by
  cases c with
  | createVersion f who => exact g.disk f h
  | replicateCreate f who l => exact g.disk f h
  | replicateCreateFile f who l => exact ⟨g.disk f h.1, fun b hb => g.listening b (h.2 b hb)⟩
  | replicateCreateVersion f who l => exact ⟨g.disk f h.1, fun b hb => g.listening b (h.2 b hb)⟩
  | closeUpdate f data who => exact g.disk f h
  | replicateWrite f data n who l => exact ⟨h.1.grow g, fun b hb hl => h.1.covered g (h.2 b hb hl)⟩
  | closeStore committed n who =>
    cases committed with
    | none => trivial
    | some w => exact ⟨h.1.grow g, fun b hb => h.1.covered g (h.2 b hb)⟩
  | _ => trivial

lemma backupVersion_congr {b : ℕ} (hb : y.backups b = x.backups b) (hp : y.phase b = x.phase b)
    (f : String) : y.backupVersion b f = x.backupVersion b f := by
  rw [backupVersion, backupVersion, hb, hp]

lemma backupDisk_congr {b : ℕ} (hb : y.backups b = x.backups b) (hp : y.phase b = x.phase b)
    (f : String) : y.backupDisk b f = x.backupDisk b f := by
  rw [backupDisk, backupDisk, hb, hp]

lemma Covered.congr {b : ℕ} (hb : y.backups b = x.backups b) (hp : y.phase b = x.phase b) {f : String}
    {n : ℕ} (h : x.Covered b f n) : y.Covered b f n := by
  rw [Covered, hp, backupVersion_congr hb hp]
  exact h

/-- The handler in `t` gets to the step `after`, or ends. -/
def Moves (x y : Cluster) (t : ℕ) (after : Option Call) : Prop :=
  ∀ t', y.calls.get t' = if t = t' then after else x.calls.get t'

lemma goesOn_moves {x : Cluster} (t : ℕ) (c : Call) : x.Moves (x.goesOn t c) t (some c) := by
  intro t'
  exact OrderedDict.get_set ..

lemma Made.moves {t : ℕ} {after : Option Call} (h : ∀ t c, x.calls.get t = some c → x.Made peers c)
    (g : x.Grows y) (hmoves : x.Moves y t after) (hafter : ∀ c ∈ after, y.Made peers c) :
    ∀ t' c, y.calls.get t' = some c → y.Made peers c := by
  intro t' c hc
  rw [hmoves t'] at hc
  split_ifs at hc
  · exact hafter c hc
  · exact (h t' c hc).grow g

lemma Replicated.atPrimary (h : Replicated peers steady x) {t : ℕ} {after : Option Call}
    (hbackups : y.backups = x.backups) (hphase : y.phase = x.phase)
    (hdisk : ∀ f, (x.primary.disk f).isSome → (y.primary.disk f).isSome)
    (hversion : ∀ f, x.primary.version f ≤ y.primary.version f)
    (hcontents : ∀ f n, n ≤ x.primary.version f → y.contents f n = x.contents f n)
    (hpresent : ∀ f, y.primary.fileVersions f ≠ none → (y.primary.disk f).isSome)
    (hmoves : x.Moves y t after) (hafter : ∀ c ∈ after, x.Grows y → y.Made peers c)
    (hlatest : ∀ f, y.primary.content f = y.contents f (y.primary.version f) ∨
      ∃ t c, y.calls.get t = some c ∧ c.updates = some (f, y.primary.content f))
    (hacked : ∀ w ∈ y.acked, w ∈ x.acked ∨
      x.Written w.1 w.2.1 w.2.2 ∧ ∀ b ∈ peers, x.Covered b w.1 w.2.2) :
    x.Grows y ∧ Replicated peers steady y := by
  have hb : ∀ b, y.backups b = x.backups b := congrFun hbackups
  have hp : ∀ b, y.phase b = x.phase b := congrFun hphase
  have g : x.Grows y := ⟨hdisk, hversion, hcontents, fun b hl => (hp b).trans hl,
    fun b f n _ hc => hc.congr (hb b) (hp b)⟩
  refine ⟨g, ?_⟩
  constructor
  case up => exact fun b hs => (hp b).trans (h.up b hs)
  case positive => exact fun f => Nat.lt_of_lt_of_le (h.positive f) (hversion f)
  case present => exact hpresent
  case made => exact Made.moves h.made g hmoves fun c hc => hafter c hc g
  case latest => exact hlatest
  case version =>
    intro b f hup
    rw [hp] at hup
    rw [backupVersion_congr (hb b) (hp b)]
    exact Nat.le_trans (h.version b f hup) (hversion f)
  case content =>
    intro b f hup hclean
    rw [hp] at hup
    rw [backupVersion_congr (hb b) (hp b)] at hclean ⊢
    rw [backupContent, backupDisk_congr (hb b) (hp b), ← backupContent, h.content b f hup hclean]
    exact (hcontents f _ (h.version b f hup)).symm
  case held =>
    intro b f hup hlater
    rw [hp] at hup
    rw [backupVersion_congr (hb b) (hp b)] at hlater
    rw [backupDisk_congr (hb b) (hp b)]
    exact h.held b f hup hlater
  case forgotten =>
    intro b f hf
    rw [hp] at hf
    rw [hb]
    exact h.forgotten b f hf
  case acked =>
    intro w hw
    have hold : x.Written w.1 w.2.1 w.2.2 ∧ ∀ b ∈ peers, x.Covered b w.1 w.2.2 := by
      obtain hw | hw := hacked w hw
      · exact h.acked w hw
      · exact hw
    exact ⟨hold.1.grow g, fun b hb => hold.1.covered g (hold.2 b hb)⟩

/-- The Close that holds the bytes on the disk is still there unless it is the one that moves. -/
lemma Replicated.stillPending (h : Replicated peers steady x) {t : ℕ} {c : Call} {after : Option Call}
    (hc : x.calls.get t = some c) (hmoves : x.Moves y t after) {f : String}
    (hupdates : c.updates ≠ some (f, x.primary.content f))
    (hcontent : y.primary.content f = x.primary.content f)
    (hcurrent : y.contents f (y.primary.version f) = x.contents f (x.primary.version f)) :
    y.primary.content f = y.contents f (y.primary.version f) ∨
      ∃ t c, y.calls.get t = some c ∧ c.updates = some (f, y.primary.content f) := by
  obtain hsame | ⟨t', c', hc', hu⟩ := h.latest f
  · left
    rw [hcontent, hcurrent, hsame]
  · right
    refine ⟨t', c', ?_, hcontent ▸ hu⟩
    have hne : t ≠ t' := by
      rintro rfl
      rw [hc] at hc'
      cases hc'
      exact hupdates hu
    rw [hmoves t', if_neg hne]
    exact hc'

/-- Where a step at the primary leads. -/
def after : Progress → Option Call
  | .goesOn c => some c
  | .returns _ => none

lemma settle_moves (x : Cluster) (t : ℕ) (p : Progress) : x.Moves (x.settle t p) t (after p) := by
  intro t'
  cases p with
  | goesOn c => exact OrderedDict.get_set ..
  | returns r => exact OrderedDict.get_erase ..

@[simp] lemma settle_primary (x : Cluster) (t : ℕ) (p : Progress) : (x.settle t p).primary = x.primary := by
  cases p <;> rfl

@[simp] lemma settle_backups (x : Cluster) (t : ℕ) (p : Progress) : (x.settle t p).backups = x.backups := by
  cases p <;> rfl

@[simp] lemma settle_phase (x : Cluster) (t : ℕ) (p : Progress) : (x.settle t p).phase = x.phase := by
  cases p <;> rfl

@[simp] lemma settle_contents (x : Cluster) (t : ℕ) (p : Progress) :
    (x.settle t p).contents = x.contents := by
  cases p <;> rfl

@[simp] lemma settle_acked (x : Cluster) (t : ℕ) (p : Progress) : (x.settle t p).acked = x.acked := by
  cases p <;> rfl

@[simp] lemma note_calls (x : Cluster) (c : Call) : (x.note c).calls = x.calls := by
  simp only [note]
  split <;> rfl

@[simp] lemma note_backups (x : Cluster) (c : Call) : (x.note c).backups = x.backups := by
  simp only [note]
  split <;> rfl

@[simp] lemma note_phase (x : Cluster) (c : Call) : (x.note c).phase = x.phase := by
  simp only [note]
  split <;> rfl

lemma note_contents {c : Call} (hc : c.writes = false) : (x.note c).contents = x.contents := by
  simp only [note]
  split
  · cases hc
  · rfl
  · rfl

lemma note_acked (h : ∀ w ∈ x.acked, x.Written w.1 w.2.1 w.2.2 ∧ ∀ b ∈ peers, x.Covered b w.1 w.2.2)
    {c : Call} (hc : x.Made peers c) :
    ∀ w ∈ (x.note c).acked, x.Written w.1 w.2.1 w.2.2 ∧ ∀ b ∈ peers, x.Covered b w.1 w.2.2 := by
  simp only [note]
  split
  · exact h
  · intro w hw
    obtain hold | hnew := List.mem_append.mp hw
    · exact h w hold
    · obtain rfl := List.mem_singleton.mp hnew
      exact hc
  · exact h

lemma atPrimary_moves (t : ℕ) (c : Call) :
    x.Moves (x.atPrimary peers t c) t (after (x.primary.run peers c).2) := by
  intro t'
  rw [atPrimary, settle_moves _ t _ t']
  simp only [note_calls]

/-- The loop over the peers is done, or has not begun. -/
def Settled : Call → Prop
  | .replicateWrite _ _ _ _ (_ :: _) => False
  | _ => True

lemma made_after {s : ReplicatedDSFSServer} {c c' : Call} (hquiet : c.writes = false) (hsettled : Settled c)
    (hc : x.Made peers c) (hc' : c' ∈ after (s.run peers c).2) : x.Made peers c' := by
  cases c with
  | createFile f who => cases hquiet
  | createVersion f who => cases hquiet
  | closeFile f data who => cases hquiet
  | closeUpdate f data who => cases hquiet
  | replicateWrite f data n who l =>
    cases l with
    | cons b l => cases hsettled
    | nil =>
      cases hc'
      exact ⟨hc.1, fun b hb => hc.2 b hb List.not_mem_nil⟩
  | createDedup f who =>
    simp only [ReplicatedDSFSServer.run] at hc'
    split at hc' <;> cases hc'
    trivial
  | closeDedup handle data who =>
    simp only [ReplicatedDSFSServer.run] at hc'
    split at hc' <;> cases hc'
    trivial
  | closePop handle data who =>
    simp only [ReplicatedDSFSServer.run] at hc'
    split at hc'
    · cases hc'
    · dsimp only at hc'
      split_ifs at hc' <;> cases hc' <;> trivial
  | _ =>
    simp only [ReplicatedDSFSServer.run] at hc'
    try split_ifs at hc'
    all_goals cases hc' <;> trivial

@[simp] lemma atPrimary_primary (t : ℕ) (c : Call) :
    (x.atPrimary peers t c).primary = (x.primary.run peers c).1 := settle_primary ..

@[simp] lemma atPrimary_backups (t : ℕ) (c : Call) : (x.atPrimary peers t c).backups = x.backups := by
  rw [atPrimary, settle_backups]
  exact note_backups x c

@[simp] lemma atPrimary_phase (t : ℕ) (c : Call) : (x.atPrimary peers t c).phase = x.phase := by
  rw [atPrimary, settle_phase]
  exact note_phase x c

@[simp] lemma atPrimary_contents (t : ℕ) (c : Call) :
    (x.atPrimary peers t c).contents = (x.note c).contents := settle_contents ..

@[simp] lemma atPrimary_acked (t : ℕ) (c : Call) : (x.atPrimary peers t c).acked = (x.note c).acked :=
  settle_acked ..

lemma updates_of_quiet {c : Call} (hquiet : c.writes = false) : c.updates = none := by
  cases c with
  | closeUpdate f data who => cases hquiet
  | _ => rfl

lemma Replicated.quiet (h : Replicated peers steady x) {t : ℕ} {c : Call} (hc : x.calls.get t = some c)
    (hquiet : c.writes = false) (hsettled : Settled c) :
    x.Grows (x.atPrimary peers t c) ∧ Replicated peers steady (x.atPrimary peers t c) := by
  have q : x.primary.Quiet (x.primary.run peers c).1 := x.primary.run_quiet peers hquiet
  have hcontents : (x.atPrimary peers t c).contents = x.contents := by
    rw [atPrimary_contents, note_contents hquiet]
  apply h.atPrimary (atPrimary_backups t c) (atPrimary_phase t c)
  case hdisk =>
    intro f hf
    rw [atPrimary_primary, q.disk]
    exact hf
  case hversion =>
    intro f
    apply Nat.le_of_eq
    rw [atPrimary_primary, q.version]
  case hcontents => exact fun f n _ => by rw [hcontents]
  case hpresent =>
    intro f hf
    rw [atPrimary_primary] at hf
    rw [atPrimary_primary, q.disk]
    obtain hold | hold := q.present f hf
    · exact h.present f hold
    · exact hold
  case hmoves => exact atPrimary_moves t c
  case hafter => exact fun c' hc' g => (made_after hquiet hsettled (h.made t c hc) hc').grow g
  case hlatest =>
    intro f
    apply h.stillPending hc (atPrimary_moves t c)
    · rw [updates_of_quiet hquiet]
      exact fun hne => by cases hne
    · rw [atPrimary_primary, q.content]
    · rw [hcontents, atPrimary_primary, q.version]
  case hacked =>
    intro w hw
    rw [atPrimary_acked] at hw
    exact .inr (note_acked h.acked (h.made t c hc) w hw)

lemma Replicated.createFile (h : Replicated peers steady x) {t : ℕ} {f : String} {who : Caller}
    (hc : x.calls.get t = some (.createFile f who)) (hempty : x.primary.content f = []) :
    x.Grows (x.atPrimary peers t (.createFile f who)) ∧
      Replicated peers steady (x.atPrimary peers t (.createFile f who)) := by
  apply h.atPrimary (atPrimary_backups t _) (atPrimary_phase t _)
  case hmoves => exact atPrimary_moves t _
  case hdisk =>
    intro g hg
    rw [atPrimary_primary, ReplicatedDSFSServer.run, ReplicatedDSFSServer.writeFile_disk, hg]
    exact Bool.or_true _
  case hversion => exact fun g => Nat.le_refl _
  case hcontents => exact fun g n _ => rfl
  case hpresent =>
    intro g hg
    rw [atPrimary_primary, ReplicatedDSFSServer.run, ReplicatedDSFSServer.writeFile_disk, h.present g hg]
    exact Bool.or_true _
  case hafter =>
    intro c' hc' _
    cases hc'
    show ((x.primary.writeFile f []).disk f).isSome
    rw [ReplicatedDSFSServer.writeFile_disk, decide_eq_true rfl]
    exact Bool.true_or _
  case hlatest =>
    intro g
    apply h.stillPending hc (atPrimary_moves t _)
    · exact fun hne => by cases hne
    · rw [atPrimary_primary, ReplicatedDSFSServer.run, ReplicatedDSFSServer.writeFile_content]
      split_ifs with hg
      · rw [hg, hempty]
      · rfl
    · rfl
  case hacked => exact fun w hw => .inl hw

lemma Replicated.createVersion (h : Replicated peers steady x) {t : ℕ} {f : String} {who : Caller}
    (hc : x.calls.get t = some (.createVersion f who)) (hfirst : x.primary.version f = 1) :
    x.Grows (x.atPrimary peers t (.createVersion f who)) ∧
      Replicated peers steady (x.atPrimary peers t (.createVersion f who)) := by
  have hdisk : (x.primary.disk f).isSome := h.made t _ hc
  have hsame : ∀ g, (x.atPrimary peers t (.createVersion f who)).primary.version g = x.primary.version g := by
    intro g
    rw [atPrimary_primary, ReplicatedDSFSServer.run, ReplicatedDSFSServer.setVersion_version]
    split_ifs with hg
    · rw [hg, hfirst]
    · rfl
  apply h.atPrimary (atPrimary_backups t _) (atPrimary_phase t _)
  case hmoves => exact atPrimary_moves t _
  case hdisk => exact fun g hg => hg
  case hversion => exact fun g => Nat.le_of_eq (hsame g).symm
  case hcontents => exact fun g n _ => rfl
  case hpresent =>
    intro g hg
    by_cases hgf : g = f
    · exact hgf ▸ hdisk
    · apply h.present g
      intro hnone
      apply hg
      rw [atPrimary_primary, ReplicatedDSFSServer.run, ReplicatedDSFSServer.setVersion]
      dsimp only
      rw [Function.update_of_ne hgf]
      exact hnone
  case hafter =>
    intro c' hc' _
    cases hc'
    exact hdisk
  case hlatest =>
    intro g
    apply h.stillPending hc (atPrimary_moves t _)
    · exact fun hne => by cases hne
    · rfl
    · rw [hsame]
      rfl
  case hacked => exact fun w hw => .inl hw

lemma Replicated.closeFile (h : Replicated peers steady x) {t : ℕ} {f : String} {data : FileData}
    {who : Caller} (hc : x.calls.get t = some (.closeFile f data who)) :
    x.Grows (x.atPrimary peers t (.closeFile f data who)) ∧
      Replicated peers steady (x.atPrimary peers t (.closeFile f data who)) := by
  apply h.atPrimary (atPrimary_backups t _) (atPrimary_phase t _)
  case hmoves => exact atPrimary_moves t _
  case hdisk =>
    intro g hg
    rw [atPrimary_primary, ReplicatedDSFSServer.run, ReplicatedDSFSServer.writeFile_disk, hg]
    exact Bool.or_true _
  case hversion => exact fun g => Nat.le_refl _
  case hcontents => exact fun g n _ => rfl
  case hpresent =>
    intro g hg
    rw [atPrimary_primary, ReplicatedDSFSServer.run, ReplicatedDSFSServer.writeFile_disk, h.present g hg]
    exact Bool.or_true _
  case hafter =>
    intro c' hc' _
    cases hc'
    show ((x.primary.writeFile f data).disk f).isSome
    rw [ReplicatedDSFSServer.writeFile_disk, decide_eq_true rfl]
    exact Bool.true_or _
  case hlatest =>
    intro g
    by_cases hg : g = f
    · right
      refine ⟨t, .closeUpdate f data who, ?_, ?_⟩
      · rw [atPrimary_moves t _ t, if_pos rfl]
        rfl
      · rw [atPrimary_primary, ReplicatedDSFSServer.run, ReplicatedDSFSServer.writeFile_content, if_pos hg, hg]
        rfl
    · apply h.stillPending hc (atPrimary_moves t _)
      · exact fun hne => by cases hne
      · rw [atPrimary_primary, ReplicatedDSFSServer.run, ReplicatedDSFSServer.writeFile_content, if_neg hg]
      · rfl
  case hacked => exact fun w hw => .inl hw

lemma Replicated.closeUpdate (h : Replicated peers steady x) {t : ℕ} {f : String} {data : FileData}
    {who : Caller} (hc : x.calls.get t = some (.closeUpdate f data who))
    (hlast : x.primary.content f = data ∨
      ∃ p ∈ x.calls.items, p.1 ≠ t ∧ p.2.updates = some (f, x.primary.content f)) :
    x.Grows (x.atPrimary peers t (.closeUpdate f data who)) ∧
      Replicated peers steady (x.atPrimary peers t (.closeUpdate f data who)) := by
  have hdisk : (x.primary.disk f).isSome := h.made t _ hc
  have hversion : ∀ g, (x.atPrimary peers t (.closeUpdate f data who)).primary.version g =
      if g = f then x.primary.version f + 1 else x.primary.version g := by
    intro g
    rw [atPrimary_primary, ReplicatedDSFSServer.run, ReplicatedDSFSServer.setVersion_version]
  have hcontents : ∀ g n, (x.atPrimary peers t (.closeUpdate f data who)).contents g n =
      if g = f ∧ n = x.primary.version f + 1 then data else x.contents g n := by
    intro g n
    rw [atPrimary_contents, note]
    dsimp only
    by_cases hg : g = f
    · subst hg
      rw [Function.update_self, Function.update_apply]
      by_cases hn : n = x.primary.version g + 1
      · rw [if_pos hn, if_pos ⟨rfl, hn⟩]
      · rw [if_neg hn, if_neg fun hboth => hn hboth.2]
    · rw [Function.update_of_ne hg, if_neg fun hboth => hg hboth.1]
  apply h.atPrimary (atPrimary_backups t _) (atPrimary_phase t _)
  case hmoves => exact atPrimary_moves t _
  case hdisk => exact fun g hg => hg
  case hversion =>
    intro g
    rw [hversion]
    split_ifs with hg
    · rw [hg]
      exact Nat.le_succ _
    · exact Nat.le_refl _
  case hcontents =>
    intro g n hn
    rw [hcontents, if_neg]
    rintro ⟨rfl, rfl⟩
    exact Nat.not_succ_le_self _ hn
  case hpresent =>
    intro g hg
    by_cases hgf : g = f
    · exact hgf ▸ hdisk
    · apply h.present g
      intro hnone
      apply hg
      rw [atPrimary_primary, ReplicatedDSFSServer.run, ReplicatedDSFSServer.setVersion]
      dsimp only
      rw [Function.update_of_ne hgf]
      exact hnone
  case hafter =>
    intro c' hc' _
    cases hc'
    refine ⟨⟨Nat.succ_lt_succ (h.positive f), ?_, ?_, hdisk⟩, fun b hb hl => absurd hb hl⟩
    · apply Nat.le_of_eq
      rw [hversion, if_pos rfl]
    · rw [hcontents, if_pos ⟨rfl, rfl⟩]
  case hlatest =>
    intro g
    by_cases hg : g = f
    · subst hg
      obtain hdata | ⟨p, hp, hne, hu⟩ := hlast
      · left
        rw [hversion, if_pos rfl, hcontents, if_pos ⟨rfl, rfl⟩]
        exact hdata
      · right
        refine ⟨p.1, p.2, ?_, hu⟩
        rw [atPrimary_moves t _ p.1, if_neg fun heq => hne heq.symm]
        exact OrderedDict.get_eq_some.mpr hp
    · apply h.stillPending hc (atPrimary_moves t _)
      · intro heq
        cases heq
        exact hg rfl
      · rfl
      · rw [hversion, if_neg hg, hcontents, if_neg fun hboth => hg hboth.1]
  case hacked => exact fun w hw => .inl hw

lemma Replicated.atBackup (h : Replicated peers steady x) {b : ℕ} (hprimary : y.primary = x.primary)
    (hcontents : y.contents = x.contents) (hacked : y.acked = x.acked)
    (hbackups : ∀ b', b' ≠ b → y.backups b' = x.backups b') (hphase : ∀ b', b' ≠ b → y.phase b' = x.phase b')
    (hlistening : x.phase b = .listening → y.phase b = .listening)
    (hcovered : ∀ f n, n ≤ x.primary.version f → x.Covered b f n → y.Covered b f n)
    (hversion : ∀ f, y.phase b ≠ .down → y.backupVersion b f ≤ x.primary.version f)
    (hcontent : ∀ f, y.phase b ≠ .down → 1 < y.backupVersion b f ∨ steady b →
      y.backupContent b f = x.contents f (y.backupVersion b f))
    (hheld : ∀ f, y.phase b ≠ .down → 1 < y.backupVersion b f → (y.backupDisk b f).isSome)
    (hforgotten : ∀ f, (y.phase b = .down ∨ ∃ files, y.phase b = .synced files) →
      (y.backups b).fileVersions f = none)
    (hcalls : ∀ t c, y.calls.get t = some c → x.calls.get t = some c ∨ (x.Grows y → y.Made peers c))
    (hpending : ∀ t c, x.calls.get t = some c → c.updates ≠ none → y.calls.get t = some c) :
    x.Grows y ∧ Replicated peers steady y := by
  have g : x.Grows y := by
    constructor
    case disk => exact fun f hf => hprimary ▸ hf
    case version => exact fun f => Nat.le_of_eq (hprimary ▸ rfl)
    case contents => exact fun f n _ => by rw [hcontents]
    case listening =>
      intro b' hb'
      by_cases hne : b' = b
      · subst hne
        exact hlistening hb'
      · rw [hphase b' hne]
        exact hb'
    case covered =>
      intro b' f n hle hc
      by_cases hne : b' = b
      · subst hne
        exact hcovered f n hle hc
      · exact hc.congr (hbackups b' hne) (hphase b' hne)
  refine ⟨g, ?_⟩
  constructor
  case up => exact fun b' hs => g.listening b' (h.up b' hs)
  case positive =>
    rw [hprimary]
    exact h.positive
  case present =>
    rw [hprimary]
    exact h.present
  case made =>
    intro t c hc
    obtain hold | hnew := hcalls t c hc
    · exact (h.made t c hold).grow g
    · exact hnew g
  case latest =>
    intro f
    rw [hprimary, hcontents]
    obtain hsame | ⟨t, c, hc, hu⟩ := h.latest f
    · exact .inl hsame
    · exact .inr ⟨t, c, hpending t c hc (hu ▸ Option.some_ne_none _), hu⟩
  case version =>
    intro b' f hup
    rw [hprimary]
    by_cases hne : b' = b
    · subst hne
      exact hversion f hup
    · rw [backupVersion_congr (hbackups b' hne) (hphase b' hne)]
      exact h.version b' f (hphase b' hne ▸ hup)
  case content =>
    intro b' f hup hclean
    rw [hcontents]
    by_cases hne : b' = b
    · subst hne
      exact hcontent f hup hclean
    · rw [backupVersion_congr (hbackups b' hne) (hphase b' hne)] at hclean ⊢
      rw [backupContent, backupDisk_congr (hbackups b' hne) (hphase b' hne)]
      exact h.content b' f (hphase b' hne ▸ hup) hclean
  case held =>
    intro b' f hup hlater
    by_cases hne : b' = b
    · subst hne
      exact hheld f hup hlater
    · rw [backupVersion_congr (hbackups b' hne) (hphase b' hne)] at hlater
      rw [backupDisk_congr (hbackups b' hne) (hphase b' hne)]
      exact h.held b' f (hphase b' hne ▸ hup) hlater
  case forgotten =>
    intro b' f hf
    by_cases hne : b' = b
    · subst hne
      exact hforgotten f hf
    · rw [hphase b' hne] at hf
      rw [hbackups b' hne]
      exact h.forgotten b' f hf
  case acked =>
    intro w hw
    rw [hacked] at hw
    obtain ⟨hwritten, hall⟩ := h.acked w hw
    exact ⟨hwritten.grow g, fun b' hb' => hwritten.covered g (hall b' hb')⟩

@[simp] lemma setBackup_self (x : Cluster) (b : ℕ) (s : ReplicatedDSFSServer) :
    (x.setBackup b s).backups b = s := by
  rw [setBackup]
  exact Function.update_self b s x.backups

lemma setBackup_of_ne (x : Cluster) (s : ReplicatedDSFSServer) {b b' : ℕ} (hne : b' ≠ b) :
    (x.setBackup b s).backups b' = x.backups b' := by
  rw [setBackup]
  exact Function.update_of_ne hne s x.backups

@[simp] lemma setPhase_self (x : Cluster) (b : ℕ) (p : Phase) : (x.setPhase b p).phase b = p := by
  rw [setPhase]
  exact Function.update_self b p x.phase

lemma setPhase_of_ne (x : Cluster) (p : Phase) {b b' : ℕ} (hne : b' ≠ b) :
    (x.setPhase b p).phase b' = x.phase b' := by
  rw [setPhase]
  exact Function.update_of_ne hne p x.phase

lemma backupVersion_of_listening {b : ℕ} (hb : x.phase b = .listening) (f : String) :
    x.backupVersion b f = (x.backups b).version f := by
  rw [backupVersion, hb]

lemma backupDisk_of_listening {b : ℕ} (hb : x.phase b = .listening) (f : String) :
    x.backupDisk b f = (x.backups b).disk f := by
  rw [backupDisk, hb]

lemma backupContent_of_listening {b : ℕ} (hb : x.phase b = .listening) (f : String) :
    x.backupContent b f = (x.backups b).content f := by
  rw [backupContent, backupDisk_of_listening hb]
  rfl

lemma Replicated.skips (h : Replicated peers steady x) {t : ℕ} {c c' : Call}
    (hc : x.calls.get t = some c) (hupdates : c.updates = none) (hafter : Made peers x c') :
    x.Grows (x.goesOn t c') ∧ Replicated peers steady (x.goesOn t c') := by
  apply h.atPrimary (y := x.goesOn t c') rfl rfl (fun f hf => hf) (fun f => Nat.le_refl _) (fun f n _ => rfl)
    h.present (goesOn_moves t c')
  case hafter =>
    intro d hd g
    cases hd
    exact hafter.grow g
  case hlatest =>
    intro f
    apply h.stillPending hc (goesOn_moves t c') _ rfl rfl
    rw [hupdates]
    exact fun hne => by cases hne
  case hacked => exact fun w hw => .inl hw

lemma Replicated.serves (h : Replicated peers steady x) {t b : ℕ} {c c' : Call}
    {s : ReplicatedDSFSServer} (hc : x.calls.get t = some c) (hupdates : c.updates = none)
    (hb : x.phase b = .listening)
    (hrising : ∀ f, (x.backups b).version f ≤ s.version f) (hversion : ∀ f, s.version f ≤ x.primary.version f)
    (hcontent : ∀ f, 1 < s.version f ∨ steady b → s.content f = x.contents f (s.version f))
    (hheld : ∀ f, 1 < s.version f → (s.disk f).isSome)
    (hafter : x.Grows ((x.setBackup b s).goesOn t c') → ((x.setBackup b s).goesOn t c').Made peers c') :
    x.Grows ((x.setBackup b s).goesOn t c') ∧ Replicated peers steady ((x.setBackup b s).goesOn t c') := by
  have hself : ((x.setBackup b s).goesOn t c').backups b = s := setBackup_self x b s
  have hphase : ((x.setBackup b s).goesOn t c').phase b = .listening := hb
  have hothers : ∀ b', b' ≠ b → ((x.setBackup b s).goesOn t c').backups b' = x.backups b' :=
    fun b' hne => setBackup_of_ne x s hne
  apply h.atBackup (y := (x.setBackup b s).goesOn t c') rfl rfl rfl hothers (fun b' _ => rfl) (fun hl => hl)
  case hcovered =>
    intro f n _ hcovered
    right
    rw [backupVersion_of_listening hphase, hself]
    obtain hdown | hle := hcovered
    · rw [hb] at hdown
      cases hdown
    · rw [backupVersion_of_listening hb] at hle
      exact Nat.le_trans hle (hrising f)
  case hversion =>
    intro f _
    rw [backupVersion_of_listening hphase, hself]
    exact hversion f
  case hcontent =>
    intro f _ hclean
    rw [backupVersion_of_listening hphase, hself] at hclean ⊢
    rw [backupContent_of_listening hphase, hself]
    exact hcontent f hclean
  case hheld =>
    intro f _ hlater
    rw [backupVersion_of_listening hphase, hself] at hlater
    rw [backupDisk_of_listening hphase, hself]
    exact hheld f hlater
  case hforgotten =>
    rintro f (hdown | ⟨files, hsynced⟩)
    · rw [hphase] at hdown
      cases hdown
    · rw [hphase] at hsynced
      cases hsynced
  case hcalls =>
    intro t' d hd
    rw [goesOn_moves t c' t'] at hd
    split_ifs at hd
    · cases hd
      exact .inr hafter
    · exact .inl hd
  case hpending =>
    intro t' d hd hu
    rw [goesOn_moves t c' t', if_neg]
    · exact hd
    · rintro rfl
      rw [hc] at hd
      cases hd
      exact hu hupdates

lemma listening_iff {b : ℕ} : x.listening b = true ↔ x.phase b = .listening := by
  rw [listening]
  cases x.phase b <;> simp

lemma Replicated.replicateCreate (h : Replicated peers steady x) {t b : ℕ} {f : String} {who : Caller}
    {l : List ℕ} (hc : x.calls.get t = some (.replicateCreate f who (b :: l))) :
    x.Grows (x.handle peers t (.replicateCreate f who (b :: l))) ∧
      Replicated peers steady (x.handle peers t (.replicateCreate f who (b :: l))) := by
  have hdisk : (x.primary.disk f).isSome := h.made t _ hc
  simp only [handle]
  split_ifs with hb hexists
  · apply h.skips hc rfl
    refine ⟨hdisk, fun b' hb' => ?_⟩
    cases hb'
    exact listening_iff.mp hb
  · apply h.skips hc rfl
    refine ⟨hdisk, fun b' hb' => ?_⟩
    cases hb'
    exact listening_iff.mp hb
  · exact h.skips hc rfl hdisk

lemma Replicated.replicateCreateFile (h : Replicated peers steady x) {t b : ℕ} {f : String} {who : Caller}
    {l : List ℕ} (hc : x.calls.get t = some (.replicateCreateFile f who (b :: l)))
    (hempty : (x.backups b).content f = []) :
    x.Grows (x.handle peers t (.replicateCreateFile f who (b :: l))) ∧
      Replicated peers steady (x.handle peers t (.replicateCreateFile f who (b :: l))) := by
  obtain ⟨hdisk, hlistening⟩ := h.made t _ hc
  have hb : x.phase b = .listening := hlistening b rfl
  have hup : x.phase b ≠ .down := fun hdown => by
    rw [hb] at hdown
    cases hdown
  have hsame : ∀ g, ((x.backups b).writeFile f []).content g = (x.backups b).content g := by
    intro g
    rw [ReplicatedDSFSServer.writeFile_content]
    split_ifs with hg
    · rw [hg, hempty]
    · rfl
  apply h.serves hc rfl hb
  case hrising => exact fun g => Nat.le_refl _
  case hversion =>
    intro g
    rw [ReplicatedDSFSServer.writeFile_version, ← backupVersion_of_listening hb]
    exact h.version b g hup
  case hcontent =>
    intro g hclean
    rw [ReplicatedDSFSServer.writeFile_version, ← backupVersion_of_listening hb] at hclean ⊢
    rw [hsame, ← backupContent_of_listening hb]
    exact h.content b g hup hclean
  case hheld =>
    intro g hlater
    rw [ReplicatedDSFSServer.writeFile_version, ← backupVersion_of_listening hb] at hlater
    rw [ReplicatedDSFSServer.writeFile_disk, ← backupDisk_of_listening hb, h.held b g hup hlater]
    exact Bool.or_true _
  case hafter => exact fun g => ⟨g.disk f hdisk, fun b' hb' => g.listening b' (hlistening b' hb')⟩

lemma Replicated.replicateCreateVersion (h : Replicated peers steady x) {t b : ℕ} {f : String}
    {who : Caller} {l : List ℕ} (hc : x.calls.get t = some (.replicateCreateVersion f who (b :: l)))
    (hfirst : (x.backups b).version f = 1) :
    x.Grows (x.handle peers t (.replicateCreateVersion f who (b :: l))) ∧
      Replicated peers steady (x.handle peers t (.replicateCreateVersion f who (b :: l))) := by
  obtain ⟨hdisk, hlistening⟩ := h.made t _ hc
  have hb : x.phase b = .listening := hlistening b rfl
  have hup : x.phase b ≠ .down := fun hdown => by
    rw [hb] at hdown
    cases hdown
  have hsame : ∀ g, ((x.backups b).setVersion f 1).version g = (x.backups b).version g := by
    intro g
    rw [ReplicatedDSFSServer.setVersion_version]
    split_ifs with hg
    · rw [hg, hfirst]
    · rfl
  apply h.serves hc rfl hb
  case hrising => exact fun g => Nat.le_of_eq (hsame g).symm
  case hversion =>
    intro g
    rw [hsame, ← backupVersion_of_listening hb]
    exact h.version b g hup
  case hcontent =>
    intro g hclean
    rw [hsame, ← backupVersion_of_listening hb] at hclean ⊢
    rw [ReplicatedDSFSServer.setVersion_content, ← backupContent_of_listening hb]
    exact h.content b g hup hclean
  case hheld =>
    intro g hlater
    rw [hsame, ← backupVersion_of_listening hb] at hlater
    rw [ReplicatedDSFSServer.setVersion_disk, ← backupDisk_of_listening hb]
    exact h.held b g hup hlater
  case hafter => exact fun g => g.disk f hdisk

lemma Replicated.replicateWrite (h : Replicated peers steady x) {t b : ℕ} {f : String} {data : FileData}
    {n : ℕ} {who : Caller} {l : List ℕ}
    (hc : x.calls.get t = some (.replicateWrite f data n who (b :: l)))
    (hnext : x.InOrder t (.replicateWrite f data n who (b :: l))) :
    x.Grows (x.handle peers t (.replicateWrite f data n who (b :: l))) ∧
      Replicated peers steady (x.handle peers t (.replicateWrite f data n who (b :: l))) := by
  obtain ⟨hwritten, hreached⟩ := h.made t _ hc
  obtain ⟨hn, hle, hdata, hdisk⟩ := hwritten
  simp only [handle]
  split_ifs with hlistening
  · have hb : x.phase b = .listening := listening_iff.mp hlistening
    have hup : x.phase b ≠ .down := fun hdown => by
      rw [hb] at hdown
      cases hdown
    have hversion : ∀ g, ((x.backups b).replicateWrite f data n).version g =
        if g = f then n else (x.backups b).version g := by
      intro g
      rw [ReplicatedDSFSServer.replicateWrite, ReplicatedDSFSServer.setVersion_version,
        ReplicatedDSFSServer.writeFile_version]
    have hcontent : ∀ g, ((x.backups b).replicateWrite f data n).content g =
        if g = f then data else (x.backups b).content g := by
      intro g
      rw [ReplicatedDSFSServer.replicateWrite, ReplicatedDSFSServer.setVersion_content,
        ReplicatedDSFSServer.writeFile_content]
    have holder : (x.backups b).version f ≤ n := by
      simp only [InOrder, hb] at hnext
      exact hnext
    apply h.serves hc rfl hb
    case hrising =>
      intro g
      rw [hversion]
      split_ifs with hg
      · rw [hg]
        exact holder
      · exact Nat.le_refl _
    case hversion =>
      intro g
      rw [hversion]
      split_ifs with hg
      · rw [hg]
        exact hle
      · rw [← backupVersion_of_listening hb]
        exact h.version b g hup
    case hcontent =>
      intro g hclean
      rw [hversion] at hclean ⊢
      rw [hcontent]
      split_ifs at hclean ⊢ with hg
      · rw [hg]
        exact hdata
      · rw [← backupVersion_of_listening hb] at hclean ⊢
        rw [← backupContent_of_listening hb]
        exact h.content b g hup hclean
    case hheld =>
      intro g hlater
      rw [hversion] at hlater
      rw [ReplicatedDSFSServer.replicateWrite, ReplicatedDSFSServer.setVersion_disk,
        ReplicatedDSFSServer.writeFile_disk]
      split_ifs at hlater with hg
      · rw [decide_eq_true hg]
        exact Bool.true_or _
      · rw [← backupVersion_of_listening hb] at hlater
        rw [← backupDisk_of_listening hb, h.held b g hup hlater]
        exact Bool.or_true _
    case hafter =>
      intro g
      refine ⟨Written.grow ⟨hn, hle, hdata, hdisk⟩ g, fun b' hb' hl => ?_⟩
      by_cases hne : b' = b
      · right
        rw [hne, backupVersion_of_listening (g.listening b hb)]
        apply Nat.le_of_eq
        show n = ((x.setBackup b ((x.backups b).replicateWrite f data n)).backups b).version f
        rw [setBackup_self, hversion, if_pos rfl]
      · exact g.covered b' f n hle (hreached b' hb' fun hmem => by
          obtain heq | hmem := List.mem_cons.mp hmem
          · exact hne heq
          · exact hl hmem)
  · apply h.skips hc rfl
    refine ⟨⟨hn, hle, hdata, hdisk⟩, fun b' hb' hl => ?_⟩
    by_cases hne : b' = b
    · subst hne
      rw [Covered]
      by_cases hdown : x.phase b' = .down
      · exact .inl hdown
      · right
        simp only [InOrder] at hnext
        split at hnext
        · next heq => exact absurd heq hdown
        · next heq => exact absurd (listening_iff.mpr heq) hlistening
        · exact hnext
    · apply hreached b' hb'
      intro hmem
      obtain heq | hmem := List.mem_cons.mp hmem
      · exact hne heq
      · exact hl hmem

lemma Replicated.handle (h : Replicated peers steady x) {t : ℕ} {c : Call} (hc : x.calls.get t = some c)
    (horder : x.InOrder t c) :
    x.Grows (x.handle peers t c) ∧ Replicated peers steady (x.handle peers t c) := by
  cases c with
  | createFile f who => exact h.createFile hc horder
  | createVersion f who => exact h.createVersion hc horder
  | closeFile f data who => exact h.closeFile hc
  | closeUpdate f data who => exact h.closeUpdate hc horder
  | replicateCreate f who l =>
    cases l with
    | nil => exact h.quiet hc rfl trivial
    | cons b l => exact h.replicateCreate hc
  | replicateCreateFile f who l =>
    cases l with
    | nil => exact h.quiet hc rfl trivial
    | cons b l => exact h.replicateCreateFile hc horder
  | replicateCreateVersion f who l =>
    cases l with
    | nil => exact h.quiet hc rfl trivial
    | cons b l => exact h.replicateCreateVersion hc horder
  | replicateWrite f data n who l =>
    cases l with
    | nil => exact h.quiet hc rfl trivial
    | cons b l => exact h.replicateWrite hc horder
  | _ => exact h.quiet hc rfl trivial

/-- A step of the start of the backup `b` that changes neither what it holds nor what it will hold. -/
lemma Replicated.starts (h : Replicated peers steady x) {b : ℕ} {s : ReplicatedDSFSServer} {p : Phase}
    (hup : x.phase b ≠ .down) (hstarting : x.phase b ≠ .listening)
    (hp : p = .installed ∨ p = .ready ∨ p = .listening)
    (hversion : ∀ f, s.version f = x.backupVersion b f) (hdisk : ∀ f, s.disk f = x.backupDisk b f) :
    x.Grows ((x.setBackup b s).setPhase b p) ∧ Replicated peers steady ((x.setBackup b s).setPhase b p) := by
  have hself : ((x.setBackup b s).setPhase b p).backups b = s := setBackup_self x b s
  have hphase : ((x.setBackup b s).setPhase b p).phase b = p := setPhase_self (x.setBackup b s) b p
  have hsameVersion : ∀ f, ((x.setBackup b s).setPhase b p).backupVersion b f = x.backupVersion b f := by
    intro f
    rw [backupVersion, hphase, hself, ← hversion f]
    obtain rfl | rfl | rfl := hp <;> rfl
  have hsameDisk : ∀ f, ((x.setBackup b s).setPhase b p).backupDisk b f = x.backupDisk b f := by
    intro f
    rw [backupDisk, hphase, hself, ← hdisk f]
    obtain rfl | rfl | rfl := hp <;> rfl
  apply h.atBackup (y := (x.setBackup b s).setPhase b p) rfl rfl rfl (fun b' hne => setBackup_of_ne x s hne)
    (fun b' hne => setPhase_of_ne (x.setBackup b s) p hne) (fun hl => absurd hl hstarting)
  case hcovered =>
    intro f n _ hcovered
    right
    rw [hsameVersion]
    exact hcovered.resolve_left hup
  case hversion => exact fun f _ => hsameVersion f ▸ h.version b f hup
  case hcontent =>
    intro f _ hclean
    rw [hsameVersion] at hclean ⊢
    rw [backupContent, hsameDisk]
    exact h.content b f hup hclean
  case hheld =>
    intro f _ hlater
    rw [hsameVersion] at hlater
    rw [hsameDisk]
    exact h.held b f hup hlater
  case hforgotten =>
    intro f hearly
    rw [hphase] at hearly
    obtain rfl | rfl | rfl := hp <;> simp at hearly
  case hcalls => exact fun t c hc => .inl hc
  case hpending => exact fun t c hc _ => hc

lemma Replicated.sync (h : Replicated peers steady x) {b : ℕ} (hb : x.phase b = .down)
    (hquiet : x.Orderly (.sync b)) :
    x.Grows (x.setPhase b (.synced x.primary.syncState)) ∧
      Replicated peers steady (x.setPhase b (.synced x.primary.syncState)) := by
  let y := x.setPhase b (.synced x.primary.syncState)
  have hphase : y.phase b = .synced x.primary.syncState := setPhase_self ..
  have hentry : ∀ f v, x.primary.fileVersions f = some v →
      x.primary.syncState f = some ⟨x.primary.content f, v⟩ := by
    intro f v hv
    obtain ⟨data, hdata⟩ := Option.isSome_iff_exists.mp (h.present f (hv ▸ Option.some_ne_none v))
    rw [ReplicatedDSFSServer.syncState, hv, ReplicatedDSFSServer.content, hdata]
    rfl
  have hnone : ∀ f, x.primary.fileVersions f = none → x.primary.syncState f = none := by
    intro f hf
    rw [ReplicatedDSFSServer.syncState, hf]
    rfl
  have hversion : ∀ f, y.backupVersion b f = x.primary.version f := by
    intro f
    rw [backupVersion, hphase]
    dsimp only
    cases hf : x.primary.fileVersions f with
    | none =>
      rw [hnone f hf, ReplicatedDSFSServer.version, hf]
      rfl
    | some v =>
      rw [hentry f v hf, ReplicatedDSFSServer.version, hf]
      rfl
  apply h.atBackup (y := y) rfl rfl rfl (fun _ _ => rfl) (fun b' hne => setPhase_of_ne x _ hne)
    (fun hl => by rw [hb] at hl; cases hl)
  case hcovered =>
    intro f n hle _
    right
    rw [hversion]
    exact hle
  case hversion => exact fun f _ => Nat.le_of_eq (hversion f)
  case hcontent =>
    intro f _ hclean
    rw [hversion] at hclean ⊢
    have hlater : 1 < x.primary.version f := by
      obtain hlater | hsteady := hclean
      · exact hlater
      · have hup := h.up b hsteady
        rw [hb] at hup
        cases hup
    cases hf : x.primary.fileVersions f with
    | none =>
      rw [ReplicatedDSFSServer.version, hf] at hlater
      exact absurd hlater (Nat.lt_irrefl 1)
    | some v =>
      rw [backupContent, backupDisk, hphase]
      dsimp only
      rw [hentry f v hf]
      obtain hsame | ⟨t, c, hc, hu⟩ := h.latest f
      · exact hsame
      · have hunversioned := hquiet (t, c) (OrderedDict.get_eq_some.mp hc) _ hu
        rw [hf] at hunversioned
        cases hunversioned
  case hheld =>
    intro f _ hlater
    rw [hversion] at hlater
    cases hf : x.primary.fileVersions f with
    | none =>
      rw [ReplicatedDSFSServer.version, hf] at hlater
      exact absurd hlater (Nat.lt_irrefl 1)
    | some v =>
      rw [backupDisk, hphase]
      dsimp only
      rw [hentry f v hf]
      rfl
  case hforgotten => exact fun f _ => h.forgotten b f (.inl hb)
  case hcalls => exact fun t c hc => .inl hc
  case hpending => exact fun t c hc _ => hc

lemma Replicated.install (h : Replicated peers steady x) {b : ℕ} {files : String → Option FileEntry}
    (hb : x.phase b = .synced files) :
    x.Grows ((x.setBackup b ((x.backups b).install files x.primary.primaryAddr)).setPhase b .installed) ∧
      Replicated peers steady
        ((x.setBackup b ((x.backups b).install files x.primary.primaryAddr)).setPhase b .installed) := by
  have hforgotten : ∀ f, (x.backups b).fileVersions f = none := fun f => h.forgotten b f (.inr ⟨files, hb⟩)
  apply h.starts (by rw [hb]; simp) (by rw [hb]; simp) (.inl rfl)
  · intro f
    rw [backupVersion, hb, ReplicatedDSFSServer.version, ReplicatedDSFSServer.install]
    dsimp only
    rw [hforgotten, Option.or_none]
  · intro f
    rw [backupDisk, hb]
    rfl

lemma Replicated.markReady (h : Replicated peers steady x) {b : ℕ} (hb : x.phase b = .installed) :
    x.Grows ((x.setBackup b { x.backups b with ready := true }).setPhase b .ready) ∧
      Replicated peers steady ((x.setBackup b { x.backups b with ready := true }).setPhase b .ready) := by
  apply h.starts (by rw [hb]; simp) (by rw [hb]; simp) (.inr (.inl rfl))
  · intro f
    rw [backupVersion, hb]
    rfl
  · intro f
    rw [backupDisk, hb]

lemma Replicated.listen (h : Replicated peers steady x) {b : ℕ} (hb : x.phase b = .ready) :
    x.Grows (x.setPhase b .listening) ∧ Replicated peers steady (x.setPhase b .listening) := by
  have hsame : x.setBackup b (x.backups b) = x := by
    rw [setBackup, Function.update_eq_self]
  have hstep := h.starts (s := x.backups b) (b := b) (p := .listening) (by rw [hb]; simp) (by rw [hb]; simp)
    (.inr (.inr rfl)) (fun f => by rw [backupVersion, hb]) (fun f => by rw [backupDisk, hb])
  rw [hsame] at hstep
  exact hstep

lemma Replicated.call (h : Replicated peers steady x) {t : ℕ} {c : Call} (hfree : x.calls.get t = none)
    (hrequest : c.IsRequest) : x.Grows (x.goesOn t c) ∧ Replicated peers steady (x.goesOn t c) := by
  apply h.atPrimary (y := x.goesOn t c) rfl rfl (fun f hf => hf) (fun f => Nat.le_refl _) (fun f n _ => rfl)
    h.present (goesOn_moves t c)
  case hafter =>
    intro c' hc' _
    cases hc'
    cases c <;> trivial
  case hlatest =>
    intro f
    obtain hsame | ⟨t', c', hc', hu⟩ := h.latest f
    · exact .inl hsame
    · right
      refine ⟨t', c', ?_, hu⟩
      rw [goesOn_moves t c t', if_neg]
      · exact hc'
      · rintro rfl
        rw [hfree] at hc'
        cases hc'
  case hacked => exact fun w hw => .inl hw

/-- The requests, the handlers and the backups that start keep the invariant. -/
lemma Replicated.step (h : Replicated peers steady x) {a : Label} (hs : x.step peers a = some y)
    (horder : x.Orderly a) : x.Grows y ∧ Replicated peers steady y := by
  cases a with
  | call t c =>
    simp only [Cluster.step, Option.ite_none_right_eq_some, Option.some.injEq] at hs
    obtain ⟨⟨hfree, hrequest⟩, rfl⟩ := hs
    exact h.call hfree hrequest
  | run t =>
    obtain ⟨c, hc, rfl⟩ := Option.map_eq_some_iff.mp hs
    exact h.handle hc (horder c hc)
  | sync b =>
    simp only [Cluster.step] at hs
    split at hs
    · next hb =>
      cases hs
      exact h.sync hb horder
    · cases hs
  | install b =>
    simp only [Cluster.step] at hs
    split at hs
    · next hb =>
      cases hs
      exact h.install hb
    · cases hs
  | markReady b =>
    simp only [Cluster.step] at hs
    split at hs
    · next hb =>
      cases hs
      exact h.markReady hb
    · cases hs
  | listen b =>
    simp only [Cluster.step] at hs
    split at hs
    · next hb =>
      cases hs
      exact h.listen hb
    · cases hs

lemma init_replicated (s : StoredFiles) (leftover : ℕ → Option (String → Option FileData)) :
    Replicated peers (fun b => leftover b = none) (init s leftover) := by
  constructor
  case up =>
    intro b hb
    simp only [init, hb]
    rfl
  case positive =>
    intro f
    show 0 < (s.fileVersions f).getD 1
    cases hv : s.fileVersions f with
    | none => exact Nat.one_pos
    | some v => exact s.positive f v hv
  case present =>
    intro f hf
    obtain ⟨v, hv⟩ := Option.ne_none_iff_exists'.mp hf
    exact s.present f v hv
  case made => exact fun t c hc => by cases hc
  case latest => exact fun f => .inl rfl
  case version =>
    intro b f hup
    cases hb : leftover b with
    | none =>
      simp only [backupVersion, init, hb]
      exact Nat.le_refl _
    | some disk =>
      simp only [init, hb] at hup
      exact absurd rfl hup
  case content =>
    intro b f hup _
    cases hb : leftover b with
    | none =>
      simp only [backupContent, backupDisk, init, hb]
      rfl
    | some disk =>
      simp only [init, hb] at hup
      exact absurd rfl hup
  case held =>
    intro b f hup hlater
    cases hb : leftover b with
    | none =>
      simp only [backupVersion, backupDisk, init, hb] at hlater ⊢
      cases hv : s.fileVersions f with
      | none =>
        have hunversioned : (s.server false).version f = 1 := congrArg (·.getD 1) hv
        exact absurd (hunversioned ▸ hlater) (Nat.lt_irrefl 1)
      | some v => exact s.present f v hv
    | some disk =>
      simp only [init, hb] at hup
      exact absurd rfl hup
  case forgotten =>
    intro b f hf
    cases hb : leftover b with
    | none =>
      simp only [init, hb] at hf
      obtain hdown | ⟨files, hsynced⟩ := hf
      · cases hdown
      · cases hsynced
    | some disk =>
      simp only [init, hb]
      rfl
  case acked => exact fun w hw => by cases hw

end Cluster

end DistributedStorage.Replication
