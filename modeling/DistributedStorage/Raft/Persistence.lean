import DistributedStorage.Raft.Changes
import DistributedStorage.Raft.Records

/-! The two files of a node. Whatever lock section a node ends, loading its files gives back its term,
its vote and its log. -/

set_option linter.unusedSectionVars false

namespace DistributedStorage.Raft

open Library Runs

variable {ι σ ρ : Type} [DecidableEq ι]

namespace Node

/-- The texts of the two files; `id` numbers the nodes. -/
def hardStateFile (id : ι → ℤ) (n : Node ι σ ρ) : Option String :=
  n.hardState.map fun hs => hardStateText hs.1 (hs.2.map id)

def logFileText (n : Node ι σ ρ) : Option String :=
  n.logFile.map fun log => logText (log.map Entry.record)

/-- The first lock section of `handle_install_snapshot`. A request of an older term is not refused. -/
def snapshotBegins (n : Node ι σ ρ) (term : ℕ) (leaderId : ι) : Node ι σ ρ :=
  { n.stepDownForVote term with leaderId := some leaderId }.resetElectionTimer

/-- The last lock section: the log behind the snapshot, or one entry that stands for it. -/
def snapshotEnds (n : Node ι σ ρ) (lastIdx lastTerm : ℕ) : Node ι σ ρ :=
  { n with
    log := if lastIdx ≤ n.lastLogIndex then n.log.drop lastIdx else [noopEntry lastTerm lastIdx]
    commitIndex := max n.commitIndex lastIdx
    lastApplied := max n.lastApplied lastIdx }.persistLog

end Node

/-- Everything a thread of a node does while it holds the lock, and the calls of `apply_fn` in between.
`restored` is what a snapshot makes of the state machine. -/
inductive Section (ι σ : Type)
  | handleRequestVote (args : RequestVoteArgs ι)
  | handleAppendEntries (args : AppendEntriesArgs ι)
  | snapshotBegins (term : ℕ) (leaderId : ι)
  | snapshotApplies (restored : σ)
  | snapshotEnds (lastIdx lastTerm : ℕ)
  | appendEntry (cmd : Command)
  | timerFires
  | startElection
  | requestVoteReply (peer : ι) (term : ℕ) (reply : RequestVoteReply)
  | electionEnds (term : ℕ)
  | appendEntriesReply (peer : ι) (args : AppendEntriesArgs ι) (reply : AppendEntriesReply)
  | callReturns (w : ℕ)
  | callTimesOut (w : ℕ)
  | applierTakes
  | applierApplies
  | applierResolves
  | setIsolated (isolated : Bool)
  | restart

namespace Node

variable [Fintype ι]

def perform (cfg : Config ι σ ρ) (n : Node ι σ ρ) : Section ι σ → Option (Node ι σ ρ)
  | .handleRequestVote args => some (n.handleRequestVote args).1
  | .handleAppendEntries args => some (n.handleAppendEntries args).1
  | .snapshotBegins term leaderId => some (n.snapshotBegins term leaderId)
  | .snapshotApplies restored => some { n with sm := restored }
  | .snapshotEnds lastIdx lastTerm => some (n.snapshotEnds lastIdx lastTerm)
  | .appendEntry cmd =>
    match n.appendEntry cfg cmd with
    | .ok out => some out.1
    | .error _ => some n
  | .timerFires => n.timerFires
  | .startElection => n.startElection
  | .requestVoteReply peer term reply => n.handleRequestVoteReply peer term reply
  | .electionEnds term => (n.electionEnds term).map Prod.fst
  | .appendEntriesReply peer args reply => some (n.handleAppendEntriesReply peer args reply)
  | .callReturns w => (n.callReturns w).map Prod.fst
  | .callTimesOut w => (n.callTimesOut w).map Prod.fst
  | .applierTakes => n.applierTakes
  | .applierApplies => (n.applierApplies cfg).map Prod.fst
  | .applierResolves => n.applierResolves cfg
  | .setIsolated isolated => some (n.setIsolated isolated)
  | .restart => some (n.restart cfg)

variable {cfg : Config ι σ ρ} {n m : Node ι σ ρ}

lemma Durable.load (h : n.Durable) (id : ι → ℤ) :
    loadPersistentState (n.hardStateFile id) n.logFileText =
      some ⟨n.currentTerm, n.votedFor.map id, n.log.map Entry.record⟩ := by
  obtain ⟨hterm, hvote, hlog⟩ := h
  have hhard : ((n.hardStateFile id).map loadHardState).getD (some (0, none)) =
      some (n.currentTerm, n.votedFor.map id) := by
    rw [← hterm, ← hvote, hardStateFile]
    cases n.hardState with
    | none => rfl
    | some hs => exact loadHardState_hardStateText hs.1 (hs.2.map id)
  have hfile : (n.logFileText.map loadLog).getD (some []) = some (n.log.map Entry.record) := by
    rw [← hlog, logFileText]
    cases n.logFile with
    | none => rfl
    | some log => exact loadLog_logText (log.map Entry.record)
  rw [loadPersistentState, hhard, hfile]
  rfl

lemma snapshotBegins_durable (h : n.Durable) (term : ℕ) (leaderId : ι) :
    (n.snapshotBegins term leaderId).Durable := by
  obtain ⟨hterm, hvote, hlog⟩ := stepDownForVote_durable h term
  exact ⟨hterm, hvote, hlog⟩

lemma snapshotEnds_durable (h : n.Durable) (lastIdx lastTerm : ℕ) :
    (n.snapshotEnds lastIdx lastTerm).Durable :=
  ⟨h.term, h.vote, rfl⟩

lemma perform_durable {x : Section ι σ} (h : n.Durable) (hm : n.perform cfg x = some m) :
    m.Durable := by
  cases x with
  | handleRequestVote args =>
    cases hm
    exact handleRequestVote_durable h args
  | handleAppendEntries args =>
    cases hm
    exact handleAppendEntries_durable h args
  | snapshotBegins term leaderId =>
    cases hm
    exact snapshotBegins_durable h term leaderId
  | snapshotApplies restored =>
    cases hm
    exact ⟨h.term, h.vote, h.log⟩
  | snapshotEnds lastIdx lastTerm =>
    cases hm
    exact snapshotEnds_durable h lastIdx lastTerm
  | appendEntry cmd =>
    simp only [perform] at hm
    split at hm
    · rename_i out happ
      cases hm
      exact appendEntry_durable h happ
    · cases hm
      exact h
  | timerFires => exact timerFires_durable h hm
  | startElection => exact startElection_durable h hm
  | requestVoteReply peer term reply => exact handleRequestVoteReply_durable h hm
  | electionEnds term =>
    obtain ⟨out, hout, rfl⟩ := Option.map_eq_some_iff.mp hm
    exact electionEnds_durable h hout
  | appendEntriesReply peer args reply =>
    cases hm
    exact handleAppendEntriesReply_durable h
  | callReturns w =>
    obtain ⟨out, hout, rfl⟩ := Option.map_eq_some_iff.mp hm
    exact (callReturns_core hout).durable h
  | callTimesOut w =>
    obtain ⟨out, hout, rfl⟩ := Option.map_eq_some_iff.mp hm
    exact (callTimesOut_core hout).durable h
  | applierTakes => exact (applierTakes_core hm).durable h
  | applierApplies =>
    obtain ⟨out, hout, rfl⟩ := Option.map_eq_some_iff.mp hm
    exact (applierApplies_core hout).durable h
  | applierResolves => exact (applierResolves_core hm).durable h
  | setIsolated isolated =>
    cases hm
    exact ⟨h.term, h.vote, h.log⟩
  | restart =>
    cases hm
    exact restart_durable cfg

/-- Whenever the lock of a node is free, its two files read back as what it holds in memory. -/
theorem state_on_disk (cfg : Config ι σ ρ) (id : ι → ℤ) (i : ι) (n : Node ι σ ρ)
    (h : Run (perform cfg) Free (start cfg i 0 none none) n) :
    loadPersistentState (n.hardStateFile id) n.logFileText =
      some ⟨n.currentTerm, n.votedFor.map id, n.log.map Entry.record⟩ := by
  have hn : n.Durable :=
    Run.invariant (fun _ _ _ hd _ hs => perform_durable hd hs) h (start_durable cfg i 0 none none)
  exact hn.load id

/-- Node 1 of three stores an entry of term 1, votes in term 2 and installs a snapshot. -/
def stored : List (Section (Fin 3) Unit) :=
  [.handleAppendEntries ⟨1, 0, 0, 0, [noopEntry 1 1, ⟨1, 2, .put, "k", [7], "c", 1⟩], 0⟩,
    .handleRequestVote ⟨2, 2, 2, 1⟩, .snapshotBegins 2 2, .snapshotEnds 1 1]

theorem state_on_disk_after_snapshot : ∃ n : Node (Fin 3) Unit Unit,
    n.currentTerm = 2 ∧ n.votedFor = some 2 ∧ n.log = [⟨1, 2, .put, "k", [7], "c", 1⟩] ∧
    loadPersistentState (n.hardStateFile fun i => (i.val : ℤ)) n.logFileText =
      some ⟨2, some 2, [⟨1, 2, "put", "k", "07", "c", 1⟩]⟩ := by
  obtain ⟨n, hn, hterm, hvote, hlog⟩ := Run.exists_of_execute (perform (Cluster.stateless 3))
    (start (Cluster.stateless 3) 1 0 none none) stored (fun n => n.currentTerm = 2 ∧
      n.votedFor = some 2 ∧ n.log = [⟨1, 2, .put, "k", [7], "c", 1⟩]) (by decide +kernel)
  refine ⟨n, hterm, hvote, hlog, ?_⟩
  have hload := state_on_disk (Cluster.stateless 3) (fun i => (i.val : ℤ)) 1 n hn
  rw [hterm, hvote, hlog] at hload
  exact hload

end Node

end DistributedStorage.Raft
