import DistributedStorage.Raft.Settling

/-! What one event can do to callers, waiters and the applier: the second inversion of `Cluster.step`. -/

set_option linter.unusedSectionVars false

namespace DistributedStorage.Raft

variable {ι σ ρ : Type} [DecidableEq ι]

/-- The two nodes agree on callers, applier and state machine. -/
structure SameService (n m : Node ι σ ρ) : Prop where
  nextCall : m.nextCall = n.nextCall
  calls : m.calls = n.calls
  commitWaiters : m.commitWaiters = n.commitWaiters
  lastApplied : m.lastApplied = n.lastApplied
  toApply : m.toApply = n.toApply
  applyResult : m.applyResult = n.applyResult
  sm : m.sm = n.sm

variable {cfg : Config ι σ ρ} {n m k : Node ι σ ρ}

lemma SameService.refl (n : Node ι σ ρ) : SameService n n := ⟨rfl, rfl, rfl, rfl, rfl, rfl, rfl⟩

/-- A step of the consensus engine leaves the callers alone, fails those that wait, or forgets them
with the process. -/
inductive Serves (cfg : Config ι σ ρ) (n m : Node ι σ ρ) : Prop
  | keeps : SameService n m → m.boot = n.boot →
      (n.state = .leader → m.state = .leader ∧ m.currentTerm = n.currentTerm) → Serves cfg n m
  | fails : SameService (n.failAllWaiters (.notLeader none none)) m → m.boot = n.boot →
      m.state ≠ .leader → Serves cfg n m
  | restarts : SameService (n.restart cfg) m → m.boot = n.boot + 1 → m.state ≠ .leader →
      Serves cfg n m

lemma Serves.refl (n : Node ι σ ρ) : Serves cfg n n :=
  .keeps (.refl n) rfl fun h => ⟨h, rfl⟩

lemma becomeFollower_serves (t : ℕ) : Serves cfg n (n.becomeFollower t) :=
  .fails ⟨rfl, rfl, rfl, rfl, rfl, rfl, rfl⟩ rfl nofun

lemma restart_serves (h : m.boot = n.boot) : Serves cfg n (m.restart cfg) :=
  .restarts ⟨rfl, rfl, rfl, rfl, rfl, rfl, rfl⟩ (congrArg (· + 1) h) nofun

lemma stepDownForVote_serves (t : ℕ) : Serves cfg n (n.stepDownForVote t) := by
  rcases stepDownForVote_eq (n := n) t with he | ⟨-, he⟩
  · rw [he]
    exact .refl n
  · rw [he]
    exact becomeFollower_serves t

lemma stepDownForAppend_serves (t : ℕ) : Serves cfg n (n.stepDownForAppend t) := by
  simp only [Node.stepDownForAppend]
  split_ifs
  · exact becomeFollower_serves t
  · exact becomeFollower_serves t
  · exact .refl n

lemma Serves.andThen (h : Serves cfg n m) (hs : SameService m k) (hb : k.boot = m.boot)
    (hr : k.state = m.state) (ht : k.currentTerm = m.currentTerm) : Serves cfg n k := by
  have hsame {l : Node ι σ ρ} (hl : SameService l m) : SameService l k :=
    ⟨hs.nextCall.trans hl.nextCall, hs.calls.trans hl.calls,
      hs.commitWaiters.trans hl.commitWaiters, hs.lastApplied.trans hl.lastApplied,
      hs.toApply.trans hl.toApply, hs.applyResult.trans hl.applyResult, hs.sm.trans hl.sm⟩
  cases h with
  | keeps hl hboot hrole =>
    refine .keeps (hsame hl) (hb.trans hboot) fun hn => ?_
    rw [hr, ht]
    exact hrole hn
  | fails hl hboot hrole => exact .fails (hsame hl) (hb.trans hboot) (hr ▸ hrole)
  | restarts hl hboot hrole => exact .restarts (hsame hl) (hb.trans hboot) (hr ▸ hrole)

lemma handleRequestVote_serves (args : RequestVoteArgs ι) :
    Serves cfg n (n.handleRequestVote args).1 := by
  obtain ⟨v, hs, armed, he⟩ := handleRequestVote_eq (n := n) args
  rw [he]
  exact (stepDownForVote_serves args.term).andThen ⟨rfl, rfl, rfl, rfl, rfl, rfl, rfl⟩ rfl rfl rfl

lemma handleAppendEntries_serves (args : AppendEntriesArgs ι) :
    Serves cfg n (n.handleAppendEntries args).1 := by
  simp only [Node.handleAppendEntries]
  split_ifs
  · exact .refl n
  have h : Serves cfg n (n.stepDownForAppend args.term) := stepDownForAppend_serves args.term
  split
  · exact h.andThen ⟨rfl, rfl, rfl, rfl, rfl, rfl, rfl⟩ rfl rfl rfl
  · exact h.andThen ⟨rfl, rfl, rfl, rfl, rfl, rfl, rfl⟩ rfl rfl rfl
  · obtain ⟨l, lf, ci, he⟩ := stored_eq (n := Node.resetElectionTimer
      { n.stepDownForAppend args.term with leaderId := some args.leaderId })
      args.prevLogIndex args.leaderCommit args.entries
    rw [he]
    exact h.andThen ⟨rfl, rfl, rfl, rfl, rfl, rfl, rfl⟩ rfl rfl rfl

variable [Fintype ι]

lemma startElection_serves (h : n.startElection = some m) : Serves cfg n m := by
  simp only [Node.startElection] at h
  split_ifs at h with _ hs
  · cases h
    exact .keeps ⟨rfl, rfl, rfl, rfl, rfl, rfl, rfl⟩ rfl fun hl => ⟨hl, rfl⟩
  · cases h
    exact .keeps ⟨rfl, rfl, rfl, rfl, rfl, rfl, rfl⟩ rfl fun hl => (hs hl).elim

lemma handleRequestVoteReply_serves {peer : ι} {t : ℕ} {reply : RequestVoteReply}
    (h : n.handleRequestVoteReply peer t reply = some m) : Serves cfg n m := by
  simp only [Node.handleRequestVoteReply] at h
  split at h
  · cases h
  · split_ifs at h
    · cases h
      exact .fails ⟨rfl, rfl, rfl, rfl, rfl, rfl, rfl⟩ rfl fun h => by cases h
    · cases h
      exact .keeps ⟨rfl, rfl, rfl, rfl, rfl, rfl, rfl⟩ rfl fun hl => ⟨hl, rfl⟩
    · cases h
      exact .keeps ⟨rfl, rfl, rfl, rfl, rfl, rfl, rfl⟩ rfl fun hl => ⟨hl, rfl⟩

lemma electionEnds_serves {t : ℕ} {won : Bool} (h : n.electionEnds t = some (m, won)) :
    Serves cfg n m := by
  cases won with
  | false =>
    obtain ⟨el, -, rfl | rfl⟩ := electionEnds_lost h
    · exact .keeps ⟨rfl, rfl, rfl, rfl, rfl, rfl, rfl⟩ rfl fun hl => ⟨hl, rfl⟩
    · exact .keeps ⟨rfl, rfl, rfl, rfl, rfl, rfl, rfl⟩ rfl fun hl => ⟨hl, rfl⟩
  | true =>
    obtain ⟨el, -, -, -, -, rfl⟩ := electionEnds_won h
    exact .keeps ⟨rfl, rfl, rfl, rfl, rfl, rfl, rfl⟩ rfl fun _ => ⟨rfl, rfl⟩

lemma handleAppendEntriesReply_serves (peer : ι) (args : AppendEntriesArgs ι)
    (reply : AppendEntriesReply) : Serves cfg n (n.handleAppendEntriesReply peer args reply) := by
  rcases handleAppendEntriesReply_cases (n := n) peer args reply with ⟨-, he⟩ | ⟨_, _, _, he⟩
  · rw [he]
    exact becomeFollower_serves _
  · rw [he]
    exact .keeps ⟨rfl, rfl, rfl, rfl, rfl, rfl, rfl⟩ rfl fun hl => ⟨hl, rfl⟩

namespace Cluster

/-- Steps by their effect on callers and appliers. -/
inductive ServiceChange (cfg : Config ι σ ρ) (s t : Cluster ι σ ρ) : Prop
  | serves (i : ι) (n : Node ι σ ρ) (obs : List (Observation ι ρ)) :
      t.nodes = Function.update s.nodes i n → Serves cfg (s.nodes i) n →
      t.trace = s.trace ++ obs → (∀ o ∈ obs, ∃ j term, o = .elected j term) →
      ServiceChange cfg s t
  | appends (i : ι) (cmd : Command) (n : Node ι σ ρ) (w : ℕ) :
      (s.nodes i).appendEntry cfg cmd = .ok (n, w) → t = s.setNode i n → ServiceChange cfg s t
  | quiet (i : ι) (n : Node ι σ ρ) (obs : List (Observation ι ρ)) :
      Local cfg i (s.nodes i) n obs → t = { s.setNode i n with trace := s.trace ++ obs } →
      ServiceChange cfg s t

variable {P : Message ι → Prop} {s t : Cluster ι σ ρ}

lemma ServiceChange.silent {i : ι} {n : Node ι σ ρ} (hn : t.nodes = Function.update s.nodes i n)
    (ht : t.trace = s.trace) (h : Serves cfg (s.nodes i) n) : ServiceChange cfg s t :=
  .serves i n [] hn h (by rw [ht, List.append_nil]) fun _ ho => (List.not_mem_nil ho).elim

lemma Change.service (h : Change cfg P s t) : ServiceChange cfg s t := by
  have hself (i : ι) : s.nodes = Function.update s.nodes i (s.nodes i) :=
    (Function.update_eq_self i s.nodes).symm
  cases h with
  | quiet i n obs hl => exact .quiet i n obs hl rfl
  | startElection i n hn => exact .silent rfl rfl (startElection_serves hn)
  | sendRequestVote i term peer args ha => exact .silent (hself i) rfl (.refl _)
  | loses i term n hn => exact .silent rfl rfl (electionEnds_serves hn)
  | wins i term n hn =>
    exact .serves i n [.elected i term] rfl (electionEnds_serves hn) rfl
      fun o ho => ⟨i, term, List.mem_singleton.mp ho⟩
  | sendAppendEntries i peer args ha => exact .silent (hself i) rfl (.refl _)
  | requestVote dst boot args hm => exact .silent rfl rfl (handleRequestVote_serves args)
  | requestVoteReply src boot args reply n hm hn =>
    exact .silent rfl rfl (handleRequestVoteReply_serves hn)
  | appendEntries dst boot args hm =>
    have hs : Serves cfg (s.nodes dst) _ := handleAppendEntries_serves args
    cases hr : ((s.nodes dst).handleAppendEntries args).2 with
    | none => exact .silent rfl rfl hs
    | some reply => exact .silent rfl rfl hs
  | appendEntriesReply src boot args reply hm _ hb =>
    exact .silent rfl rfl (handleAppendEntriesReply_serves src args reply)
  | voteCrash dst boot args hm =>
    refine .silent rfl rfl (restart_serves ?_)
    rcases stepDownForVote_eq (n := s.nodes dst) args.term with he | ⟨-, he⟩ <;> rw [he]
    rfl
  | appendCrash dst boot args hm hle =>
    refine .silent rfl rfl (restart_serves ?_)
    simp only [Node.stepDownForAppend]
    split_ifs <;> rfl
  | appendEntry i cmd n w hn => exact .appends i cmd n w hn rfl
  | crash i => exact .silent rfl rfl (restart_serves rfl)

end Cluster

end DistributedStorage.Raft
