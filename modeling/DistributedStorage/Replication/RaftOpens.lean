import DistributedStorage.Library.Runs
import DistributedStorage.Replication.RaftServer
import Mathlib.Data.List.Induction
import Mathlib.Data.List.Infix

/-! One node of the file system over Raft, at the steps of its handlers and of its applier. A committed entry
reaches the file first and the version after it. -/

namespace DistributedStorage.Replication

open Library Library.Runs Files

namespace RaftDSFSServicer

/-- A node that starts on the files it finds. -/
def new (disk : String → Option FileData) : RaftDSFSServicer :=
  ⟨disk, fun _ => none, fun _ => none, 1, fun _ => none⟩

def content (s : RaftDSFSServicer) (filename : String) : FileData := (s.disk filename).getD []

/-- What the applier does with an entry before its lock section. -/
def applyFile (s : RaftDSFSServicer) (entry : Entry) : RaftDSFSServicer :=
  match entry.opType with
  | .create =>
    { s with disk := Function.update s.disk entry.filename ((s.disk entry.filename).or (some [])) }
  | .write => { s with disk := Function.update s.disk entry.filename (some entry.data) }

/-- The lock section of the applier. -/
def applyVersion (s : RaftDSFSServicer) (entry : Entry) : RaftDSFSServicer :=
  match entry.opType with
  | .create =>
    { s with
      fileVersions := Function.update s.fileVersions entry.filename (some (s.version entry.filename)) }
  | .write =>
    { s with
      fileVersions := Function.update s.fileVersions entry.filename (some (s.version entry.filename + 1)) }

/-- What the state machine holds after a part of the log. -/
def replay (disk : String → Option FileData) (log : List Entry) : RaftDSFSServicer :=
  log.foldl applyEntry (new disk)

end RaftDSFSServicer

/-- An entry that writes the file. -/
def Entry.Writes (f : String) (entry : Entry) : Prop := entry.opType = .write ∧ entry.filename = f

instance (f : String) (entry : Entry) : Decidable (entry.Writes f) := inferInstanceAs (Decidable (_ ∧ _))

def writesTo (f : String) (log : List Entry) : ℕ := log.countP fun entry => entry.Writes f

/-- `filed` are the entries that have reached the files and `versioned` those that have reached the versions.
`seen t` is what had reached the files when the Open in `t` read its bytes, and `pairs` holds the bytes and
the version of each answer to an Open that asked for the bytes. -/
structure RaftReplica where
  server : RaftDSFSServicer
  calls : ℕ → Option RaftCall
  applying : Option Entry
  filed : List Entry
  versioned : List Entry
  seen : ℕ → Option (List Entry)
  pairs : List (String × FileData × ℕ)

inductive ReplicaStep
  | call (t : ℕ) (r : Request)
  | run (t : ℕ) (a : RaftAnswer)
  | applyFile (entry : Entry)
  | applyVersion

namespace RaftReplica

def init (disk : String → Option FileData) : RaftReplica where
  server := .new disk
  calls _ := none
  applying := none
  filed := []
  versioned := []
  seen _ := none
  pairs := []

/-- What had reached the files when the handler in `t` last read them. -/
def reads (x : RaftReplica) (t : ℕ) : RaftCall → Option (List Entry)
  | .openFetch _ _ fetchData => if fetchData then some x.filed else none
  | .openRead _ _ => some x.filed
  | _ => x.seen t

def answers (x : RaftReplica) (t : ℕ) : RaftCall → Outcome RaftCall → List (String × FileData × ℕ)
  | .openSection f _ _, .returns (.opened _ data v) => if (x.seen t).isSome then [(f, data, v)] else []
  | _, _ => []

/-- The step a handler is at after this one. -/
def next : Outcome RaftCall → Option RaftCall
  | .goesOn c => some c
  | .returns _ => none

/-- The applier is one thread. -/
def step (x : RaftReplica) : ReplicaStep → Option RaftReplica
  | .call t r =>
    if (x.calls t).isNone then some { x with calls := Function.update x.calls t (some (.start r)) } else none
  | .run t a => (x.calls t).map fun c =>
    let out := x.server.run a c
    { x with
      server := out.1
      calls := Function.update x.calls t (next out.2)
      seen := Function.update x.seen t (x.reads t c)
      pairs := x.pairs ++ x.answers t c out.2 }
  | .applyFile entry =>
    if x.applying.isNone then
      some { x with
        server := x.server.applyFile entry
        applying := some entry
        filed := x.filed ++ [entry] }
    else none
  | .applyVersion => x.applying.map fun entry =>
    { x with
      server := x.server.applyVersion entry
      applying := none
      versioned := x.versioned ++ [entry] }

/-- When an Open that has its bytes enters its lock section, as many writes of the file have reached the
versions as had reached the file when it read. -/
def Level (x : RaftReplica) (t : ℕ) : RaftCall → Prop
  | .openSection f _ _ => ∀ l ∈ x.seen t, writesTo f l = writesTo f x.versioned
  | _ => True

def InStep (x : RaftReplica) : ReplicaStep → Prop
  | .run t _ => ∀ c ∈ x.calls t, x.Level t c
  | _ => True

end RaftReplica

namespace RaftDSFSServicer

variable {s : RaftDSFSServicer} {entry : Entry} {f : String}

lemma applyEntry_eq (s : RaftDSFSServicer) (entry : Entry) :
    s.applyEntry entry = (s.applyFile entry).applyVersion entry := by
  cases hop : entry.opType with
  | create =>
    simp only [applyEntry, applyFile, applyVersion, hop]
    rfl
  | write =>
    simp only [applyEntry, applyFile, applyVersion, hop]
    rfl

lemma applyFile_content (s : RaftDSFSServicer) (entry : Entry) (f : String) :
    (s.applyFile entry).content f = if entry.Writes f then entry.data else s.content f := by
  cases hop : entry.opType with
  | create =>
    have hw : ¬entry.Writes f := fun h => by cases hop.symm.trans h.1
    simp only [content, applyFile, hop, if_neg hw, Function.update_apply]
    split_ifs with hf
    · rw [← hf]
      cases s.disk f <;> rfl
    · rfl
  | write =>
    simp only [content, applyFile, hop, Entry.Writes, true_and, Function.update_apply, eq_comm (a := f)]
    split_ifs <;> rfl

lemma applyVersion_version (s : RaftDSFSServicer) (entry : Entry) (f : String) :
    (s.applyVersion entry).version f = if entry.Writes f then s.version f + 1 else s.version f := by
  cases hop : entry.opType with
  | create =>
    have hw : ¬entry.Writes f := fun h => by cases hop.symm.trans h.1
    simp only [version, applyVersion, hop, if_neg hw, Function.update_apply]
    split_ifs with hf
    · rw [hf]
      rfl
    · rfl
  | write =>
    simp only [version, applyVersion, hop, Entry.Writes, true_and, Function.update_apply, eq_comm (a := f)]
    split_ifs with hf
    · rw [hf]
      rfl
    · rfl

@[simp] lemma applyFile_version (s : RaftDSFSServicer) (entry : Entry) (f : String) :
    (s.applyFile entry).version f = s.version f := by
  simp only [applyFile]
  split <;> rfl

@[simp] lemma applyVersion_content (s : RaftDSFSServicer) (entry : Entry) (f : String) :
    (s.applyVersion entry).content f = s.content f := by
  simp only [applyVersion]
  split <;> rfl

lemma replay_concat (disk : String → Option FileData) (log : List Entry) (entry : Entry) :
    replay disk (log ++ [entry]) = (replay disk log).applyEntry entry := by
  rw [replay, List.foldl_append]
  rfl

lemma replay_concat_content (disk : String → Option FileData) (log : List Entry) (entry : Entry) (f : String) :
    (replay disk (log ++ [entry])).content f = ((replay disk log).applyFile entry).content f := by
  rw [replay_concat, applyEntry_eq, applyVersion_content]

/-- The version of a file counts its writes; the first content has version 1. -/
lemma replay_version (disk : String → Option FileData) (log : List Entry) (f : String) :
    (replay disk log).version f = writesTo f log + 1 := by
  induction log using List.reverseRecOn with
  | nil => rfl
  | append_singleton log entry ih =>
    rw [replay_concat, applyEntry_eq, applyVersion_version, applyFile_version, ih, writesTo, writesTo,
      List.countP_append, List.countP_singleton]
    by_cases hw : entry.Writes f
    · simp [hw]
    · simp [hw]

end RaftDSFSServicer

namespace RaftReplica

open RaftDSFSServicer

variable {disk : String → Option FileData} {x y : RaftReplica} {t : ℕ}

/-- The bytes of an Open on its way to its lock section are those of what had reached the files by then. -/
def Holds (disk : String → Option FileData) (filed : List Entry) (seen : Option (List Entry)) : RaftCall → Prop
  | .openSection f _ data => ∀ l ∈ seen, l <+: filed ∧ (replay disk l).content f = data
  | _ => True

/-- A pair the state machine went through. -/
def Replayed (disk : String → Option FileData) (filed : List Entry) (p : String × FileData × ℕ) : Prop :=
  ∃ l, l <+: filed ∧ writesTo p.1 l + 1 = p.2.2 ∧ (replay disk l).content p.1 = p.2.1

structure Faithful (disk : String → Option FileData) (x : RaftReplica) : Prop where
  applying : x.filed = x.versioned ++ x.applying.toList
  files : ∀ f, x.server.content f = (replay disk x.filed).content f
  versions : ∀ f, x.server.version f = writesTo f x.versioned + 1
  holds : ∀ t, ∀ c ∈ x.calls t, Holds disk x.filed (x.seen t) c
  pairs : ∀ p ∈ x.pairs, Replayed disk x.filed p

lemma init_faithful (disk : String → Option FileData) : (init disk).Faithful disk where
  applying := rfl
  files _ := rfl
  versions _ := rfl
  holds t c hc := by cases hc
  pairs p hp := by cases hp

lemma Holds.longer {l m : List Entry} (h : l <+: m) {seen : Option (List Entry)} {c : RaftCall}
    (hc : Holds disk l seen c) : Holds disk m seen c := by
  cases c with
  | openSection f mode data => exact fun k hk => ⟨(hc k hk).1.trans h, (hc k hk).2⟩
  | _ => trivial

lemma Replayed.longer {l m : List Entry} (h : l <+: m) {p : String × FileData × ℕ} (hp : Replayed disk l p) :
    Replayed disk m p := by
  obtain ⟨k, hk, hrest⟩ := hp
  exact ⟨k, hk.trans h, hrest⟩

lemma Faithful.reads (h : x.Faithful disk) {f mode : String} {data : FileData}
    (hdata : x.server.content f = data) : Holds disk x.filed (some x.filed) (.openSection f mode data) := by
  intro l hl
  obtain rfl := Option.mem_some_iff.mp hl
  exact ⟨List.prefix_rfl, (h.files f).symm.trans hdata⟩

lemma run_openSection {a : RaftAnswer} {s : RaftDSFSServicer} {c : RaftCall} {f mode : String} {data : FileData}
    (h : (s.run a c).2 = .goesOn (.openSection f mode data)) : s.content f = data ∧ c = .openRead f mode ∨
      ∃ fetchData, c = .openFetch f mode fetchData ∧ (fetchData = true → s.content f = data) := by
  cases c with
  | openRead g m =>
    cases h
    exact .inl ⟨rfl, rfl⟩
  | openFetch g m fetchData =>
    right
    simp only [run] at h
    split_ifs at h with hfetch
    · cases h
    · cases h
      refine ⟨fetchData, rfl, fun hf => ?_⟩
      have hnone : s.disk f = none := by
        rw [← Option.not_isSome_iff_eq_none]
        exact fun hsome => hfetch ⟨hf, hsome⟩
      rw [content, hnone]
      rfl
  | createStore _ | openSection | closeStore | testSection _ => cases h
  | «open» g m fetchData =>
    simp only [run] at h
    split_ifs at h
    all_goals cases h
  | closePop handle d who =>
    simp only [run] at h
    split at h
    · cases h
    · dsimp only at h
      split_ifs at h <;> cases h
  | _ =>
    simp only [run] at h
    split at h <;> cases h

lemma answers_openSection (x : RaftReplica) (t : ℕ) (f mode : String) (data : FileData) :
    x.answers t (.openSection f mode data) (.returns (x.server.openHandle f mode data).2) =
      if (x.seen t).isSome then [(f, data, x.server.version f)] else [] := by
  have hreply : (x.server.openHandle f mode data).2 =
      .opened x.server.nextHandle data ((x.server.openHandle f mode data).1.version f) := rfl
  rw [hreply, openHandle_version]
  rfl

lemma Faithful.run (h : x.Faithful disk) {a : RaftAnswer} {c : RaftCall} (hc : x.calls t = some c)
    (hlevel : x.Level t c) : Faithful disk { x with
      server := (x.server.run a c).1
      calls := Function.update x.calls t (next (x.server.run a c).2)
      seen := Function.update x.seen t (x.reads t c)
      pairs := x.pairs ++ x.answers t c (x.server.run a c).2 } := by
  obtain ⟨hdisk, hversion⟩ := run_unchanged a x.server c
  refine ⟨h.applying, fun f => ?_, fun f => (hversion f).trans (h.versions f), fun u c' hc' => ?_, fun p hp => ?_⟩
  · rw [content, hdisk]
    exact h.files f
  · dsimp only at hc' ⊢
    by_cases hu : u = t
    · subst hu
      rw [Function.update_self] at hc' ⊢
      cases hout : (x.server.run a c).2 with
      | returns r =>
        rw [hout] at hc'
        cases hc'
      | goesOn d =>
        rw [hout] at hc'
        obtain rfl := Option.mem_some_iff.mp hc'
        cases d with
        | openSection f mode data =>
          obtain ⟨hdata, rfl⟩ | ⟨fetchData, rfl, hdata⟩ := run_openSection hout
          · exact h.reads hdata
          · simp only [RaftReplica.reads]
            split_ifs with hfetch
            · exact h.reads (hdata hfetch)
            · exact fun l hl => by cases hl
        | _ => trivial
    · rw [Function.update_of_ne hu] at hc' ⊢
      exact h.holds u c' hc'
  · obtain hp | hp := List.mem_append.mp hp
    · exact h.pairs p hp
    · cases c with
      | openSection f mode data =>
        have hp : p ∈ x.answers t (.openSection f mode data) (.returns (x.server.openHandle f mode data).2) := hp
        rw [answers_openSection] at hp
        split_ifs at hp with hseen
        · obtain rfl := List.mem_singleton.mp hp
          obtain ⟨l, hl⟩ := Option.isSome_iff_exists.mp hseen
          obtain ⟨hfiled, hdata⟩ := h.holds t _ hc l hl
          refine ⟨l, hfiled, ?_, hdata⟩
          rw [h.versions, hlevel l hl]
        · cases hp
      | _ => cases hp

lemma Faithful.applyFile (h : x.Faithful disk) (entry : Entry) (hidle : x.applying = none) :
    Faithful disk { x with
      server := x.server.applyFile entry
      applying := some entry
      filed := x.filed ++ [entry] } where
  applying := by
    have hfiled := h.applying
    rw [hidle, Option.toList_none, List.append_nil] at hfiled
    rw [hfiled]
    rfl
  files f := by
    rw [replay_concat_content, applyFile_content, applyFile_content, h.files]
  versions f := (applyFile_version x.server entry f).trans (h.versions f)
  holds t c hc := (h.holds t c hc).longer (List.prefix_append _ _)
  pairs p hp := (h.pairs p hp).longer (List.prefix_append _ _)

lemma Faithful.applyVersion (h : x.Faithful disk) {entry : Entry} (happlying : x.applying = some entry) :
    Faithful disk { x with
      server := x.server.applyVersion entry
      applying := none
      versioned := x.versioned ++ [entry] } where
  applying := by
    rw [h.applying, happlying]
    exact (List.append_nil _).symm
  files f := (applyVersion_content x.server entry f).trans (h.files f)
  versions f := by
    rw [applyVersion_version, h.versions, writesTo, writesTo, List.countP_append, List.countP_singleton]
    by_cases hw : entry.Writes f
    · simp [hw]
    · simp [hw]
  holds := h.holds
  pairs := h.pairs

lemma Faithful.step (h : x.Faithful disk) {e : ReplicaStep} (he : x.InStep e) (hs : x.step e = some y) :
    y.Faithful disk := by
  cases e with
  | call t r =>
    simp only [RaftReplica.step] at hs
    split_ifs at hs
    obtain rfl := Option.some.inj hs
    refine ⟨h.applying, h.files, h.versions, fun u c hc => ?_, h.pairs⟩
    obtain ⟨-, rfl⟩ | ⟨-, hc⟩ := of_update_some hc
    · cases r <;> trivial
    · exact h.holds u c hc
  | run t a =>
    obtain ⟨c, hc, rfl⟩ := Option.map_eq_some_iff.mp hs
    exact h.run hc (he c hc)
  | applyFile entry =>
    simp only [RaftReplica.step] at hs
    split_ifs at hs with hidle
    obtain rfl := Option.some.inj hs
    exact h.applyFile entry (Option.isNone_iff_eq_none.mp hidle)
  | applyVersion =>
    obtain ⟨entry, happlying, rfl⟩ := Option.map_eq_some_iff.mp hs
    exact h.applyVersion happlying

/-- In a run that keeps to this every Open that asks for the bytes answers a pair that the state machine went
through. -/
theorem opened_pair_replayed (disk : String → Option FileData) {x : RaftReplica}
    (h : Run step InStep (init disk) x) {f : String} {data : FileData} {v : ℕ} (hp : (f, data, v) ∈ x.pairs) :
    ∃ l, l <+: x.filed ∧ writesTo f l + 1 = v ∧ (replay disk l).content f = data ∧
      (replay disk l).version f = v := by
  have hx := Run.invariant (fun _ _ _ hx he hs => Faithful.step hx he hs) h (init_faithful disk)
  obtain ⟨l, hl, hversion, hdata⟩ := hx.pairs _ hp
  exact ⟨l, hl, hversion, hdata, (replay_version disk l f).trans hversion⟩

instance (x : RaftReplica) (t : ℕ) (c : RaftCall) : Decidable (x.Level t c) :=
  match c with
  | .openSection f _ _ => inferInstanceAs (Decidable (∀ l ∈ x.seen t, writesTo f l = writesTo f x.versioned))
  | .create .. | .createDedup .. | .createRole .. | .createExists .. | .createAppend .. | .createWait ..
  | .createStore _ | .open .. | .openExists .. | .openFetch .. | .openRead .. | .close .. | .closeDedup ..
  | .closePop .. | .closeRole .. | .closeAppend .. | .closeWait .. | .closeStore .. | .testVersionNumber _
  | .testSection _ => isTrue trivial

instance (x : RaftReplica) (e : ReplicaStep) : Decidable (x.InStep e) :=
  match e with
  | .run t _ => inferInstanceAs (Decidable (∀ c ∈ x.calls t, x.Level t c))
  | .call .. | .applyFile _ | .applyVersion => isTrue trivial

/-- A node that is not isolated. -/
def reachable : RaftAnswer := ⟨false, false, "", "", .notLeader⟩

def oneByte (filename : String) : Option FileData := if filename = "a" then some [0] else none

def nine : Entry := ⟨.write, "a", [9], ⟨"c", 1⟩, none⟩

/-- An Open up to its lock section. -/
def opening : List ReplicaStep :=
  .call 0 (.open 0 ⟨"a", "r"⟩ true) :: List.replicate 4 (.run 0 reachable)

theorem opened_pair_replayed_after_write : ∃ x : RaftReplica, ("a", [9], 2) ∈ x.pairs ∧
    ∃ l, l <+: x.filed ∧ writesTo "a" l + 1 = 2 ∧ (replay oneByte l).content "a" = [9] ∧
      (replay oneByte l).version "a" = 2 := by
  obtain ⟨x, hx, hp⟩ := Run.exists_of_execute (guarded step InStep) (init oneByte)
    ([.applyFile nine, .applyVersion] ++ opening ++ [.run 0 reachable])
    (fun x => ("a", [9], 2) ∈ x.pairs) (by decide +kernel)
  exact ⟨x, hp, opened_pair_replayed oneByte hx.of_guarded hp⟩

/-- In the first run the entry comes between the read of the Open and its lock section, in the second the Open
comes between the two steps of the applier. -/
theorem opened_pair_not_replayed : ∃ x y : RaftReplica,
    (Run step Free (init oneByte) x ∧ ("a", [0], 2) ∈ x.pairs ∧
      ¬∃ l, l <+: x.filed ∧ writesTo "a" l + 1 = 2 ∧ (replay oneByte l).content "a" = [0]) ∧
    Run step Free (init oneByte) y ∧ ("a", [9], 1) ∈ y.pairs ∧
      ¬∃ l, l <+: y.filed ∧ writesTo "a" l + 1 = 1 ∧ (replay oneByte l).content "a" = [9] := by
  obtain ⟨x, hx, hp, hfiled⟩ := Run.exists_of_execute step (init oneByte)
    (opening ++ [.applyFile nine, .applyVersion, .run 0 reachable])
    (fun x => ("a", [0], 2) ∈ x.pairs ∧ x.filed = [nine]) (by decide +kernel)
  obtain ⟨y, hy, hp', hfiled'⟩ := Run.exists_of_execute step (init oneByte)
    ([.applyFile nine] ++ opening ++ [.run 0 reachable])
    (fun x => ("a", [9], 1) ∈ x.pairs ∧ x.filed = [nine]) (by decide +kernel)
  refine ⟨x, y, ⟨hx, hp, ?_⟩, hy, hp', ?_⟩
  · have hnone : ∀ l ∈ [nine].inits, ¬(writesTo "a" l + 1 = 2 ∧ (replay oneByte l).content "a" = [0]) := by
      decide +kernel
    rintro ⟨l, hl, hpair⟩
    exact hnone l ((List.mem_inits _ _).mpr (hfiled ▸ hl)) hpair
  · have hnone : ∀ l ∈ [nine].inits, ¬(writesTo "a" l + 1 = 1 ∧ (replay oneByte l).content "a" = [9]) := by
      decide +kernel
    rintro ⟨l, hl, hpair⟩
    exact hnone l ((List.mem_inits _ _).mpr (hfiled' ▸ hl)) hpair

end RaftReplica

end DistributedStorage.Replication
