import DistributedStorage.Raft.LogFacts

/-! What the handlers leave alone: most keep the log, and leave the node in its role and term or as a
follower. -/

set_option linter.unusedSectionVars false

namespace DistributedStorage.Raft

variable {ι σ ρ : Type} [DecidableEq ι]

/-- `m` has the log of `n`, and its role and term unless it follows. -/
structure Settles (n m : Node ι σ ρ) : Prop where
  log : m.log = n.log
  term : n.currentTerm ≤ m.currentTerm
  role : m.state = .follower ∨ (m.currentTerm = n.currentTerm ∧ m.state = n.state)
  elections : ∀ t el, m.elections t = some el → ∃ old, n.elections t = some old ∧
    el.lastLogIndex = old.lastLogIndex ∧ el.lastLogTerm = old.lastLogTerm

variable {n m k : Node ι σ ρ}

lemma Settles.of_elections (hlog : m.log = n.log) (hterm : n.currentTerm ≤ m.currentTerm)
    (hrole : m.state = .follower ∨ (m.currentTerm = n.currentTerm ∧ m.state = n.state))
    (he : m.elections = n.elections) : Settles n m :=
  ⟨hlog, hterm, hrole, fun _ el hel => ⟨el, he ▸ hel, rfl, rfl⟩⟩

lemma Settles.refl (n : Node ι σ ρ) : Settles n n :=
  .of_elections rfl le_rfl (Or.inr ⟨rfl, rfl⟩) rfl

lemma SameCore.settles (h : SameCore n m) : Settles n m :=
  .of_elections h.log h.currentTerm.ge (Or.inr ⟨h.currentTerm, h.state⟩) h.elections

lemma becomeFollower_settles {t : ℕ} (h : n.currentTerm ≤ t) : Settles n (n.becomeFollower t) :=
  .of_elections rfl h (Or.inl rfl) rfl

lemma stepDownForVote_settles (t : ℕ) : Settles n (n.stepDownForVote t) := by
  rcases stepDownForVote_eq (n := n) t with he | ⟨hlt, he⟩
  · rw [he]
    exact .refl n
  · rw [he]
    exact becomeFollower_settles hlt.le

lemma stepDownForAppend_settles {t : ℕ} (h : n.currentTerm ≤ t) :
    Settles n (n.stepDownForAppend t) := by
  simp only [Node.stepDownForAppend]
  split_ifs
  · exact becomeFollower_settles h
  · exact becomeFollower_settles h
  · exact .refl n

lemma Settles.restart (h : Settles n m) (cfg : Config ι σ ρ) (hd : m.Durable) :
    Settles n (m.restart cfg) where
  log := (hd.restart_log cfg).trans h.log
  term := (hd.restart_currentTerm cfg) ▸ h.term
  role := Or.inl rfl
  elections _ _ hel := by cases hel

lemma handleRequestVote_settles (args : RequestVoteArgs ι) :
    Settles n (n.handleRequestVote args).1 := by
  have h : Settles n (n.stepDownForVote args.term) := stepDownForVote_settles args.term
  obtain ⟨v, hs, armed, he⟩ := handleRequestVote_eq (n := n) args
  rw [he]
  exact ⟨h.log, h.term, h.role, h.elections⟩

/-- After an append request the node has the role and term it stepped down to. -/
lemma handleAppendEntries_role (args : AppendEntriesArgs ι) :
    n.currentTerm ≤ (n.handleAppendEntries args).1.currentTerm ∧
      ((n.handleAppendEntries args).1.state = .follower ∨
        ((n.handleAppendEntries args).1.currentTerm = n.currentTerm ∧
          (n.handleAppendEntries args).1.state = n.state)) ∧
      ((n.handleAppendEntries args).1.state = .candidate →
        (n.handleAppendEntries args).1 = n) := by
  simp only [Node.handleAppendEntries]
  split_ifs with hlt
  · exact ⟨le_rfl, Or.inr ⟨rfl, rfl⟩, fun _ => rfl⟩
  have h : Settles n (n.stepDownForAppend args.term) := stepDownForAppend_settles (by omega)
  have hc : (n.stepDownForAppend args.term).state ≠ .candidate := by
    simp only [Node.stepDownForAppend]
    split_ifs with _ hs
    · exact fun h => by cases h
    · exact fun h => by cases h
    · exact hs
  split
  · exact ⟨h.term, h.role, fun hs => (hc hs).elim⟩
  · exact ⟨h.term, h.role, fun hs => (hc hs).elim⟩
  · obtain ⟨l, lf, ci, he⟩ := stored_eq (n := Node.resetElectionTimer
      { n.stepDownForAppend args.term with leaderId := some args.leaderId })
      args.prevLogIndex args.leaderCommit args.entries
    rw [he]
    exact ⟨h.term, h.role, fun hs => (hc hs).elim⟩

variable [Fintype ι]

/-- An election thread finds its node leading, or makes it a candidate of the next term. -/
lemma startElection_cases (h : n.startElection = some m) :
    (n.state = .leader ∧ Settles n m) ∨
      (m.state = .candidate ∧ m.currentTerm = n.currentTerm + 1 ∧ m.log = n.log ∧
        m.elections = Function.update n.elections (n.currentTerm + 1)
          (some ⟨n.lastLogIndex, n.lastLogTerm, n.majority, 1, n.peers, true⟩)) := by
  simp only [Node.startElection] at h
  split_ifs at h with _ hs
  · cases h
    exact Or.inl ⟨hs, .of_elections rfl le_rfl (Or.inr ⟨rfl, rfl⟩) rfl⟩
  · cases h
    exact Or.inr ⟨rfl, rfl, rfl, rfl⟩

lemma setElection_settles {t : ℕ} {old : Election ι} (el : Election ι) (h : n.elections t = some old)
    (hi : el.lastLogIndex = old.lastLogIndex) (ht : el.lastLogTerm = old.lastLogTerm) :
    Settles n (n.setElection t el) := by
  refine ⟨rfl, le_rfl, Or.inr ⟨rfl, rfl⟩, fun u x hx => ?_⟩
  by_cases hu : u = t
  · subst hu
    simp only [Node.setElection, Function.update_self, Option.some.injEq] at hx
    subst hx
    exact ⟨old, h, hi, ht⟩
  · simp only [Node.setElection, Function.update_of_ne hu] at hx
    exact ⟨x, hx, rfl, rfl⟩

lemma handleRequestVoteReply_settles {peer : ι} {t : ℕ} {reply : RequestVoteReply}
    (h : n.handleRequestVoteReply peer t reply = some m) : Settles n m := by
  simp only [Node.handleRequestVoteReply] at h
  split at h
  · cases h
  · rename_i el hel
    split_ifs at h with _ hlt
    · cases h
      have hh := setElection_settles { el with asking := el.asking.erase peer } hel rfl rfl
      exact ⟨rfl, hlt.le, Or.inl rfl, hh.elections⟩
    · cases h
      exact setElection_settles _ hel rfl rfl
    · cases h
      exact setElection_settles _ hel rfl rfl

lemma electionEnds_lost_settles {t : ℕ} (h : n.electionEnds t = some (m, false)) :
    Settles n m := by
  obtain ⟨el, hel, rfl | rfl⟩ := electionEnds_lost h
  · exact setElection_settles _ hel rfl rfl
  · have hh := setElection_settles { el with running := false } hel rfl rfl
    exact ⟨hh.log, hh.term, hh.role, hh.elections⟩

lemma handleAppendEntriesReply_settles (peer : ι) (args : AppendEntriesArgs ι)
    (reply : AppendEntriesReply) : Settles n (n.handleAppendEntriesReply peer args reply) := by
  rcases handleAppendEntriesReply_cases (n := n) peer args reply with ⟨h, he⟩ | ⟨_, _, _, he⟩
  · rw [he]
    exact becomeFollower_settles h.le
  · rw [he]
    exact .of_elections rfl le_rfl (Or.inr ⟨rfl, rfl⟩) rfl

end DistributedStorage.Raft
