import DistributedStorage.Raft.Persistence
import DistributedStorage.Raft.Steps

/-! `handle_install_snapshot`: two lock sections, and between them the call of `apply_fn`, whose failure is
only logged. In a cluster each call is a thread of its own. -/

set_option linter.unusedSectionVars false

namespace DistributedStorage.Raft

open Library.Runs

structure InstallSnapshotArgs (ι : Type) where
  term : ℕ
  leaderId : ι
  lastIncludedIndex : ℕ
  lastIncludedTerm : ℕ
  snapshotData : Bytes
  deriving DecidableEq

variable {ι σ ρ : Type} [DecidableEq ι]

namespace Node

/-- `applyFn` gives the state machine after the call, and whether the call returned. -/
def snapshotApplies (applyFn : σ → Bytes → σ × Bool) (n : Node ι σ ρ) (data : Bytes) : Node ι σ ρ :=
  { n with sm := (applyFn n.sm data).1 }

/-- The handler when no other thread takes the lock in between. -/
def handleInstallSnapshot (applyFn : σ → Bytes → σ × Bool) (n : Node ι σ ρ)
    (args : InstallSnapshotArgs ι) : Node ι σ ρ × ℕ :=
  let n := n.snapshotBegins args.term args.leaderId
  let n := n.snapshotApplies applyFn args.snapshotData
  let n := n.snapshotEnds args.lastIncludedIndex args.lastIncludedTerm
  (n, n.currentTerm)

end Node

lemma handleInstallSnapshot_stale {applyFn : σ → Bytes → σ × Bool} {n : Node ι σ ρ}
    {args : InstallSnapshotArgs ι} (h : args.term < n.currentTerm) :
    (n.handleInstallSnapshot applyFn args).1 = { n with
      leaderId := some args.leaderId
      timerArmed := true
      sm := (applyFn n.sm args.snapshotData).1 }.snapshotEnds args.lastIncludedIndex
        args.lastIncludedTerm := by
  have hbegin : n.snapshotBegins args.term args.leaderId =
      { n with leaderId := some args.leaderId, timerArmed := true } := by
    rw [Node.snapshotBegins, Node.stepDownForVote, if_neg h.le.not_gt]
    rfl
  rw [Node.handleInstallSnapshot, hbegin]
  rfl

/-- The nodes agree on log, commit index and last applied index, in memory and in what a restart loads. -/
structure Intact (n m : Node ι σ ρ) : Prop where
  log : m.log = n.log
  commitIndex : m.commitIndex = n.commitIndex
  lastApplied : m.lastApplied = n.lastApplied
  logFile : m.logFile.getD [] = n.logFile.getD []

variable {n m : Node ι σ ρ}

lemma stepDownForVote_intact (t : ℕ) : Intact n (n.stepDownForVote t) := by
  rcases stepDownForVote_eq (n := n) t with he | ⟨-, he⟩
  · rw [he]
    exact ⟨rfl, rfl, rfl, rfl⟩
  · rw [he]
    exact ⟨rfl, rfl, rfl, rfl⟩

lemma snapshotBegins_intact (term : ℕ) (leaderId : ι) : Intact n (n.snapshotBegins term leaderId) := by
  obtain ⟨hlog, hci, hla, hfile⟩ := stepDownForVote_intact (n := n) term
  exact ⟨hlog, hci, hla, hfile⟩

lemma snapshotBegins_term (n : Node ι σ ρ) (term : ℕ) (leaderId : ι) :
    (n.snapshotBegins term leaderId).currentTerm = max n.currentTerm term := by
  change (n.stepDownForVote term).currentTerm = _
  rw [Node.stepDownForVote]
  split_ifs with hlt
  · exact (max_eq_right hlt.le).symm
  · exact (max_eq_left (not_lt.mp hlt)).symm

lemma snapshotBegins_moves {heard : Prop} (n : Node ι σ ρ) (term : ℕ) (leaderId : ι) :
    Moves heard n (n.snapshotBegins term leaderId) :=
  (stepDownForVote_moves term).andThen rfl rfl (Or.inl rfl) (Or.inl rfl)

lemma snapshotBegins_elections (n : Node ι σ ρ) (term : ℕ) (leaderId : ι) :
    (n.snapshotBegins term leaderId).elections = n.elections := by
  change (n.stepDownForVote term).elections = _
  rcases stepDownForVote_eq (n := n) term with he | ⟨-, he⟩ <;> rw [he]
  rfl

lemma snapshotEnds_log {li lt : ℕ} : (n.snapshotEnds li lt).log = n.log ↔ li = 0 := by
  change (if li ≤ n.lastLogIndex then n.log.drop li else [noopEntry lt li]) = n.log ↔ li = 0
  constructor
  · intro h
    split_ifs at h with hle
    · by_contra hne
      have hlen := congrArg List.length h
      rw [List.length_drop] at hlen
      have hnil : n.log = [] := List.length_eq_zero_iff.mp (by omega)
      rw [Node.lastLogIndex, hnil] at hle
      exact hne (Nat.le_zero.mp hle)
    · refine (hle ?_).elim
      rw [Node.lastLogIndex, ← h]
      exact le_rfl
  · rintro rfl
    rw [if_pos (Nat.zero_le _), List.drop_zero]

lemma snapshotEnds_intact_iff {li lt : ℕ} :
    Intact n (n.snapshotEnds li lt) ↔ li = 0 ∧ n.logFile.getD [] = n.log := by
  constructor
  · intro h
    exact ⟨snapshotEnds_log.mp h.log, h.logFile.symm.trans h.log⟩
  · rintro ⟨hli, hfile⟩
    refine ⟨snapshotEnds_log.mpr hli, ?_, ?_, (snapshotEnds_log.mpr hli).trans hfile.symm⟩
    · rw [hli]
      exact Nat.max_zero _
    · rw [hli]
      exact Nat.max_zero _

lemma Intact.trans {k : Node ι σ ρ} (h : Intact n m) (h' : Intact m k) : Intact n k where
  log := h'.log.trans h.log
  commitIndex := h'.commitIndex.trans h.commitIndex
  lastApplied := h'.lastApplied.trans h.lastApplied
  logFile := h'.logFile.trans h.logFile

lemma Intact.symm (h : Intact n m) : Intact m n :=
  ⟨h.log.symm, h.commitIndex.symm, h.lastApplied.symm, h.logFile.symm⟩

/-- Node 1 of three stores and commits a put of term 1, and applies nothing yet. -/
def unappliedPut : List (Section (Fin 3) Unit) :=
  [.handleAppendEntries ⟨1, 0, 0, 0, [noopEntry 1 1, ⟨1, 2, .put, "k", [7], "c", 1⟩], 2⟩]

/-- How far a call of `handle_install_snapshot` has come. -/
inductive Installation.Stage
  | began
  | applied
  | ended
  deriving DecidableEq

/-- One call of `handle_install_snapshot`, in the process `boot` of node `dst`. -/
structure Installation (ι : Type) where
  dst : ι
  boot : ℕ
  args : InstallSnapshotArgs ι
  stage : Installation.Stage
  deriving DecidableEq

def Installation.resume (applyFn : σ → Bytes → σ × Bool) (call : Installation ι) (n : Node ι σ ρ) :
    Option (Node ι σ ρ × Installation.Stage) :=
  match call.stage with
  | .began => some (n.snapshotApplies applyFn call.args.snapshotData, .applied)
  | .applied =>
    some (n.snapshotEnds call.args.lastIncludedIndex call.args.lastIncludedTerm, .ended)
  | .ended => none

/-- A cluster whose nodes are also sent snapshots. No code of the repository sends one, so a call may have
any arguments. -/
structure Installing (ι σ ρ : Type) extends Cluster ι σ ρ where
  installs : List (Installation ι)

inductive InstallEvent (ι : Type)
  | raft (e : Event ι)
  | begins (i : ι) (args : InstallSnapshotArgs ι)
  | resumes (k : ℕ)

/-- A state machine without state takes any snapshot. -/
def ignores (_ : Unit) (_ : Bytes) : Unit × Bool := ((), true)

def raftEvents (es : List (Event ι)) : List (InstallEvent ι) := es.map .raft

variable [Fintype ι]

namespace Installing

open Cluster

def init (cfg : Config ι σ ρ) : Installing ι σ ρ := ⟨Cluster.init cfg, []⟩

/-- A call ends with the process that runs it. -/
def step (cfg : Config ι σ ρ) (applyFn : σ → Bytes → σ × Bool) (x : Installing ι σ ρ) :
    InstallEvent ι → Option (Installing ι σ ρ)
  | .raft e => (Cluster.step cfg x.toCluster e).map fun t => ⟨t, x.installs⟩
  | .begins i args =>
    if (x.nodes i).isolated then none
    else some ⟨x.setNode i ((x.nodes i).snapshotBegins args.term args.leaderId),
      x.installs ++ [⟨i, (x.nodes i).boot, args, .began⟩]⟩
  | .resumes k => x.installs[k]?.bind fun call =>
    if (x.nodes call.dst).boot = call.boot then
      (call.resume applyFn (x.nodes call.dst)).map fun out =>
        ⟨x.setNode call.dst out.1, x.installs.set k { call with stage := out.2 }⟩
    else none

def Reachable (cfg : Config ι σ ρ) (applyFn : σ → Bytes → σ × Bool)
    (C : Installing ι σ ρ → InstallEvent ι → Prop) (x : Installing ι σ ρ) : Prop :=
  Run (step cfg applyFn) C (init cfg) x

variable {cfg : Config ι σ ρ} {applyFn : σ → Bytes → σ × Bool} {x y : Installing ι σ ρ}
  {e : InstallEvent ι}

/-- The section of a call that an event runs. -/
inductive SectionAt (applyFn : σ → Bytes → σ × Bool) (x : Installing ι σ ρ) :
    InstallEvent ι → ι → Node ι σ ρ → Prop
  | begins (i : ι) (args : InstallSnapshotArgs ι) :
      SectionAt applyFn x (.begins i args) i ((x.nodes i).snapshotBegins args.term args.leaderId)
  | applies (k : ℕ) (call : Installation ι) : x.installs[k]? = some call → call.stage = .began →
      SectionAt applyFn x (.resumes k) call.dst
        ((x.nodes call.dst).snapshotApplies applyFn call.args.snapshotData)
  | ends (k : ℕ) (call : Installation ι) : x.installs[k]? = some call → call.stage = .applied →
      SectionAt applyFn x (.resumes k) call.dst
        ((x.nodes call.dst).snapshotEnds call.args.lastIncludedIndex call.args.lastIncludedTerm)

lemma step_cases (h : step cfg applyFn x e = some y) :
    (∃ f, e = .raft f ∧ Cluster.step cfg x.toCluster f = some y.toCluster) ∨
      ∃ i n, SectionAt applyFn x e i n ∧ y.toCluster = x.setNode i n := by
  cases e with
  | raft f =>
    obtain ⟨t, ht, rfl⟩ := Option.map_eq_some_iff.mp h
    exact Or.inl ⟨f, rfl, ht⟩
  | begins i args =>
    simp only [step] at h
    split_ifs at h
    cases h
    exact Or.inr ⟨i, _, .begins i args, rfl⟩
  | resumes k =>
    obtain ⟨call, hcall, hrest⟩ := Option.bind_eq_some_iff.mp h
    split_ifs at hrest
    obtain ⟨out, hout, rfl⟩ := Option.map_eq_some_iff.mp hrest
    simp only [Installation.resume] at hout
    split at hout
    · rename_i hstage
      cases hout
      exact Or.inr ⟨_, _, .applies k call hcall hstage, rfl⟩
    · rename_i hstage
      cases hout
      exact Or.inr ⟨_, _, .ends k call hcall hstage, rfl⟩
    · cases hout

lemma SectionAt.electionInv {i : ι} {n : Node ι σ ρ} (h : SectionAt applyFn x e i n)
    (hs : ElectionInv x.toCluster) : ElectionInv (x.setNode i n) := by
  cases h with
  | begins i args =>
    refine hs.moveOnly (snapshotBegins_moves _ _ _)
      (Node.snapshotBegins_durable (hs.durable i) _ _) fun term el hel => ?_
    rw [snapshotBegins_elections] at hel
    exact hs.counted i term el hel
  | applies k call hcall hstage =>
    have hd := hs.durable call.dst
    exact hs.moveOnly ((Moves.refl _).andThen rfl rfl (Or.inl rfl) (Or.inl rfl))
      ⟨hd.term, hd.vote, hd.log⟩ fun term el hel => hs.counted _ term el hel
  | ends k call hcall hstage =>
    exact hs.moveOnly ((Moves.refl _).andThen rfl rfl (Or.inl rfl) (Or.inl rfl))
      (Node.snapshotEnds_durable (hs.durable _) _ _) fun term el hel => hs.counted _ term el hel

end Installing

end DistributedStorage.Raft
