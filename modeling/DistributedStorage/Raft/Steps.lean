import DistributedStorage.Raft.ElectionSafety

/-! The node an event happens at, and what it becomes: the inversion of `Cluster.step` that keeps the
event. -/

set_option linter.unusedSectionVars false

namespace DistributedStorage.Raft

variable {ι σ ρ : Type} [DecidableEq ι]

lemma SameCore.refl (n : Node ι σ ρ) : SameCore n n := by
  constructor <;> rfl

variable [Fintype ι]

namespace Cluster

/-- In the event `e`, node `i` becomes `n`. -/
inductive StepAt (cfg : Config ι σ ρ) (s : Cluster ι σ ρ) : Event ι → ι → Node ι σ ρ → Prop
  | quiet (e : Event ι) (i : ι) (n : Node ι σ ρ) : SameCore (s.nodes i) n → StepAt cfg s e i n
  | startElection (i : ι) (n : Node ι σ ρ) : (s.nodes i).startElection = some n →
      StepAt cfg s (.startElection i) i n
  | loses (i : ι) (term : ℕ) (n : Node ι σ ρ) : (s.nodes i).electionEnds term = some (n, false) →
      StepAt cfg s (.electionEnds i term) i n
  | wins (i : ι) (term : ℕ) (n : Node ι σ ρ) : (s.nodes i).electionEnds term = some (n, true) →
      StepAt cfg s (.electionEnds i term) i n
  | requestVote (k : ℕ) (dst : ι) (boot : ℕ) (args : RequestVoteArgs ι) :
      s.sent[k]? = some (.requestVote dst boot args) →
      StepAt cfg s (.deliver k) dst ((s.nodes dst).handleRequestVote args).1
  | requestVoteReply (k : ℕ) (src : ι) (boot : ℕ) (args : RequestVoteArgs ι) (reply : RequestVoteReply)
      (n : Node ι σ ρ) : s.sent[k]? = some (.requestVoteReply src boot args reply) →
      (s.nodes args.candidateId).handleRequestVoteReply src args.term reply = some n →
      StepAt cfg s (.deliver k) args.candidateId n
  | appendEntries (k : ℕ) (dst : ι) (boot : ℕ) (args : AppendEntriesArgs ι) :
      s.sent[k]? = some (.appendEntries dst boot args) →
      StepAt cfg s (.deliver k) dst ((s.nodes dst).handleAppendEntries args).1
  | appendEntriesReply (k : ℕ) (src : ι) (boot : ℕ) (args : AppendEntriesArgs ι)
      (reply : AppendEntriesReply) : s.sent[k]? = some (.appendEntriesReply src boot args reply) →
      StepAt cfg s (.deliver k) args.leaderId
        ((s.nodes args.leaderId).handleAppendEntriesReply src args reply)
  | voteCrash (k : ℕ) (dst : ι) (boot : ℕ) (args : RequestVoteArgs ι) :
      s.sent[k]? = some (.requestVote dst boot args) →
      StepAt cfg s (.deliverAndCrash k) dst (((s.nodes dst).stepDownForVote args.term).restart cfg)
  | appendCrash (k : ℕ) (dst : ι) (boot : ℕ) (args : AppendEntriesArgs ι) :
      s.sent[k]? = some (.appendEntries dst boot args) → (s.nodes dst).currentTerm ≤ args.term →
      StepAt cfg s (.deliverAndCrash k) dst (((s.nodes dst).stepDownForAppend args.term).restart cfg)
  | appendEntry (i : ι) (cmd : Command) (n : Node ι σ ρ) (w : ℕ) :
      (s.nodes i).appendEntry cfg cmd = .ok (n, w) → StepAt cfg s (.appendEntry i cmd) i n
  | crash (i : ι) : StepAt cfg s (.crash i) i ((s.nodes i).restart cfg)

variable {cfg : Config ι σ ρ} {s t : Cluster ι σ ρ} {e : Event ι}

lemma sendReply_nodes (s : Cluster ι σ ρ) (src : ι) (boot : ℕ) (args : AppendEntriesArgs ι)
    (reply : Option AppendEntriesReply) : (s.sendReply src boot args reply).nodes = s.nodes := by
  cases reply <;> rfl

lemma step_at (h : step cfg s e = some t) :
    ∃ i n, StepAt cfg s e i n ∧ t.nodes = Function.update s.nodes i n := by
  cases e with
  | timerFires i =>
    obtain ⟨n, hn, rfl⟩ := Option.map_eq_some_iff.mp h
    exact ⟨i, n, .quiet _ i n (timerFires_core hn), rfl⟩
  | startElection i =>
    obtain ⟨n, hn, rfl⟩ := Option.map_eq_some_iff.mp h
    exact ⟨i, n, .startElection i n hn, rfl⟩
  | sendRequestVote i term peer =>
    obtain ⟨args, -, rfl⟩ := Option.map_eq_some_iff.mp h
    exact ⟨i, s.nodes i, .quiet _ i _ (.refl _), (Function.update_eq_self ..).symm⟩
  | electionEnds i term =>
    obtain ⟨⟨n, won⟩, hn, rfl⟩ := Option.map_eq_some_iff.mp h
    cases won
    · exact ⟨i, n, .loses i term n hn, rfl⟩
    · exact ⟨i, n, .wins i term n hn, rfl⟩
  | sendAppendEntries i peer =>
    obtain ⟨args, -, rfl⟩ := Option.map_eq_some_iff.mp h
    exact ⟨i, s.nodes i, .quiet _ i _ (.refl _), (Function.update_eq_self ..).symm⟩
  | deliver k =>
    obtain ⟨m, hm, hd⟩ := Option.bind_eq_some_iff.mp h
    cases m with
    | requestVote dst boot args =>
      simp only [deliver] at hd
      split_ifs at hd
      cases hd
      exact ⟨dst, _, .requestVote k dst boot args hm, rfl⟩
    | requestVoteReply src boot args reply =>
      simp only [deliver] at hd
      split_ifs at hd
      obtain ⟨n, hn, rfl⟩ := Option.map_eq_some_iff.mp hd
      exact ⟨args.candidateId, n, .requestVoteReply k src boot args reply n hm hn, rfl⟩
    | appendEntries dst boot args =>
      simp only [deliver] at hd
      split_ifs at hd
      cases hd
      exact ⟨dst, _, .appendEntries k dst boot args hm, sendReply_nodes ..⟩
    | appendEntriesReply src boot args reply =>
      simp only [deliver] at hd
      split_ifs at hd
      cases hd
      exact ⟨args.leaderId, _, .appendEntriesReply k src boot args reply hm, rfl⟩
  | deliverAndCrash k =>
    obtain ⟨m, hm, hd⟩ := Option.bind_eq_some_iff.mp h
    cases m with
    | requestVote dst boot args =>
      cases hd
      exact ⟨dst, _, .voteCrash k dst boot args hm, rfl⟩
    | appendEntries dst boot args =>
      simp only [deliverAndCrash] at hd
      split_ifs at hd with hlt
      cases hd
      exact ⟨dst, _, .appendCrash k dst boot args hm (not_lt.mp hlt), rfl⟩
    | requestVoteReply src boot args reply => cases hd
    | appendEntriesReply src boot args reply => cases hd
  | appendEntry i cmd =>
    simp only [step] at h
    split at h
    · rename_i out hout
      cases h
      exact ⟨i, out.1, .appendEntry i cmd out.1 out.2 hout, rfl⟩
    · cases h
  | callReturns i w =>
    obtain ⟨⟨n, c, r⟩, hn, rfl⟩ := Option.map_eq_some_iff.mp h
    exact ⟨i, n, .quiet _ i n (callReturns_core hn), rfl⟩
  | callTimesOut i w =>
    obtain ⟨⟨n, c⟩, hn, rfl⟩ := Option.map_eq_some_iff.mp h
    exact ⟨i, n, .quiet _ i n (callTimesOut_core hn), rfl⟩
  | applierTakes i =>
    obtain ⟨n, hn, rfl⟩ := Option.map_eq_some_iff.mp h
    exact ⟨i, n, .quiet _ i n (applierTakes_core hn), rfl⟩
  | applierApplies i =>
    obtain ⟨⟨n, out⟩, hn, rfl⟩ := Option.map_eq_some_iff.mp h
    exact ⟨i, n, .quiet _ i n (applierApplies_core hn), rfl⟩
  | applierResolves i =>
    obtain ⟨n, hn, rfl⟩ := Option.map_eq_some_iff.mp h
    exact ⟨i, n, .quiet _ i n (applierResolves_core hn), rfl⟩
  | setIsolated i isolated =>
    cases h
    exact ⟨i, _, .quiet _ i _ (by constructor <;> rfl), rfl⟩
  | crash i =>
    cases h
    exact ⟨i, _, .crash i, rfl⟩

end Cluster

end DistributedStorage.Raft
