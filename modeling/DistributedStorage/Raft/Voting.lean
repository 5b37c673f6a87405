import DistributedStorage.Raft.Changes

/-! How a node's term, role and vote move. The vote is only erased inside a term by a candidate that
hears from a leader of that term. -/

set_option linter.unusedSectionVars false

namespace DistributedStorage.Raft

variable {ι σ ρ : Type} [DecidableEq ι]

/-- The allowed changes of term, role and vote. `heard` says that a leader of the current term has
been heard from. -/
def Moves (heard : Prop) (n m : Node ι σ ρ) : Prop :=
  m.nodeId = n.nodeId ∧
    ((n.currentTerm < m.currentTerm ∧ m.state ≠ .leader ∧
        (m.state = .candidate → m.votedFor = some m.nodeId)) ∨
      (m.currentTerm = n.currentTerm ∧ (m.state = n.state ∨ m.state = .follower) ∧
        (m.votedFor = n.votedFor ∨ n.votedFor = none ∨ (n.state = .candidate ∧ heard))))

variable {heard : Prop} {n m k : Node ι σ ρ}

lemma Moves.refl (n : Node ι σ ρ) : Moves heard n n :=
  ⟨rfl, Or.inr ⟨rfl, Or.inl rfl, Or.inl rfl⟩⟩

/-- A move may be followed by a vote of a node that has none, or by a crash. -/
lemma Moves.andThen (h : Moves heard n m) (hid : k.nodeId = m.nodeId)
    (ht : k.currentTerm = m.currentTerm) (hs : k.state = m.state ∨ k.state = .follower)
    (hv : k.votedFor = m.votedFor ∨ m.votedFor = none) : Moves heard n k := by
  refine ⟨hid.trans h.1, ?_⟩
  rcases h.2 with ⟨hlt, hl, hc⟩ | ⟨heq, hstate, hvote⟩
  · refine Or.inl ⟨ht ▸ hlt, ?_, fun hk => ?_⟩
    · rcases hs with hs | hs <;> rw [hs]
      · exact hl
      · exact nofun
    · have hm : m.state = .candidate := by
        rcases hs with hs | hs
        · exact hs ▸ hk
        · rw [hs] at hk
          cases hk
      rcases hv with hv | hv
      · rw [hv, hid, hc hm]
      · rw [hc hm] at hv
        cases hv
  · refine Or.inr ⟨ht.trans heq, ?_, ?_⟩
    · rcases hs with hs | hs
      · rw [hs]
        exact hstate
      · exact Or.inr hs
    · rcases hv with hv | hv
      · rw [hv]
        exact hvote
      · rcases hvote with hvote | hvote
        · exact Or.inr (Or.inl (hvote ▸ hv))
        · exact Or.inr hvote

lemma Moves.term_le {heard : Prop} {n m : Node ι σ ρ} (h : Moves heard n m) :
    n.currentTerm ≤ m.currentTerm := by
  rcases h.2 with ⟨hlt, -, -⟩ | ⟨heq, -, -⟩
  · exact hlt.le
  · exact heq.ge

/-- The vote a node holds in a term without a leader stays while it stays in the term. -/
lemma Moves.vote_kept {n m : Node ι σ ρ} {heard : Prop} {c : ι} (h : Moves heard n m)
    (ht : m.currentTerm = n.currentTerm) (hn : ¬ heard) (hv : n.votedFor = some c) :
    m.votedFor = some c := by
  rcases h.2 with ⟨hlt, -, -⟩ | ⟨-, -, hvote | hvote | ⟨-, hvote⟩⟩
  · omega
  · exact hvote.trans hv
  · rw [hvote] at hv
    cases hv
  · exact (hn hvote).elim

lemma becomeFollower_moves {t : ℕ} (h : n.currentTerm < t) : Moves heard n (n.becomeFollower t) :=
  ⟨rfl, Or.inl ⟨h, nofun, nofun⟩⟩

lemma SameCore.moves (h : SameCore n m) : Moves heard n m :=
  ⟨h.nodeId, Or.inr ⟨h.currentTerm, Or.inl h.state, Or.inl h.votedFor⟩⟩

lemma stepDownForVote_moves (t : ℕ) : Moves heard n (n.stepDownForVote t) := by
  unfold Node.stepDownForVote
  split_ifs with h
  · exact becomeFollower_moves h
  · exact .refl n

lemma stepDownForAppend_moves {t : ℕ} (ht : n.currentTerm ≤ t) (hh : n.currentTerm = t → heard) :
    Moves heard n (n.stepDownForAppend t) := by
  unfold Node.stepDownForAppend
  split_ifs with h hc
  · exact becomeFollower_moves h
  · have heq : n.currentTerm = t := by omega
    exact ⟨rfl, Or.inr ⟨heq.symm, Or.inr rfl, Or.inr (Or.inr ⟨hc, hh heq⟩)⟩⟩
  · exact .refl n

lemma restart_moves (cfg : Config ι σ ρ) (h : Moves heard n m) (hd : m.Durable) :
    Moves heard n (m.restart cfg) :=
  h.andThen rfl (hd.restart_currentTerm cfg) (Or.inr rfl) (Or.inl (hd.restart_votedFor cfg))

/-- A granted vote is the vote the node holds afterwards, in the term of the request. -/
lemma handleRequestVote_granted {args : RequestVoteArgs ι}
    (h : (n.handleRequestVote args).2.voteGranted = true) :
    (n.handleRequestVote args).1.votedFor = some args.candidateId ∧
      (n.handleRequestVote args).1.currentTerm = args.term ∧
      (n.stepDownForVote args.term).candidateLogUpToDate args.lastLogIndex args.lastLogTerm := by
  unfold Node.handleRequestVote at h ⊢
  dsimp only at h ⊢
  split_ifs at h ⊢ with hg
  · refine ⟨rfl, ?_, hg.2.2⟩
    change (n.stepDownForVote args.term).currentTerm = args.term
    refine le_antisymm hg.1 ?_
    unfold Node.stepDownForVote
    split_ifs with hlt
    · exact le_rfl
    · omega

lemma handleRequestVote_moves (args : RequestVoteArgs ι) :
    Moves heard n (n.handleRequestVote args).1 := by
  have h : Moves heard n (n.stepDownForVote args.term) := stepDownForVote_moves args.term
  unfold Node.handleRequestVote
  dsimp only
  split_ifs with hg
  · refine h.andThen rfl rfl (Or.inl rfl) ?_
    rcases hg.2.1 with hv | hv
    · exact Or.inr hv
    · exact Or.inl hv.symm
  · exact h

/-- Deciding a vote touches the vote, its file and the timer only. -/
lemma handleRequestVote_eq (args : RequestVoteArgs ι) :
    ∃ v hs armed, (n.handleRequestVote args).1 =
      { n.stepDownForVote args.term with votedFor := v, hardState := hs, timerArmed := armed } := by
  unfold Node.handleRequestVote
  dsimp only
  split_ifs <;> exact ⟨_, _, _, rfl⟩

lemma stepDownForVote_eq (t : ℕ) : n.stepDownForVote t = n ∨
    (n.currentTerm < t ∧ n.stepDownForVote t = n.becomeFollower t) := by
  unfold Node.stepDownForVote
  split_ifs with h
  · exact Or.inr ⟨h, rfl⟩
  · exact Or.inl rfl

lemma handleRequestVote_log (args : RequestVoteArgs ι) :
    (n.handleRequestVote args).1.log = n.log := by
  obtain ⟨v, hs, armed, he⟩ := handleRequestVote_eq (n := n) args
  rw [he]
  rcases stepDownForVote_eq (n := n) args.term with hd | ⟨_, hd⟩
  · rw [hd]
  · rw [hd]
    rfl

lemma handleRequestVote_elections (args : RequestVoteArgs ι) :
    (n.handleRequestVote args).1.elections = n.elections := by
  obtain ⟨v, hs, armed, he⟩ := handleRequestVote_eq (n := n) args
  rw [he]
  rcases stepDownForVote_eq (n := n) args.term with hd | ⟨_, hd⟩
  · rw [hd]
  · rw [hd]
    rfl

@[simp] lemma storeEntries_currentTerm (p : ℕ) (es : List Entry) :
    (n.storeEntries p es).currentTerm = n.currentTerm := by
  unfold Node.storeEntries
  split_ifs <;> rfl

@[simp] lemma updateCommit_currentTerm (c : ℕ) :
    (n.updateCommit c).currentTerm = n.currentTerm := by
  unfold Node.updateCommit
  split_ifs <;> rfl

/-- Storing entries and taking over a commit index touches the log, its file and the commit index
only. -/
lemma stored_eq (p c : ℕ) (es : List Entry) :
    ∃ l lf ci, (n.storeEntries p es).updateCommit c =
      { n with log := l, logFile := lf, commitIndex := ci } := by
  unfold Node.updateCommit Node.storeEntries
  split_ifs <;> exact ⟨_, _, _, rfl⟩

lemma handleAppendEntries_moves {args : AppendEntriesArgs ι}
    (hh : n.currentTerm = args.term → heard) : Moves heard n (n.handleAppendEntries args).1 := by
  unfold Node.handleAppendEntries
  split_ifs with hlt
  · exact .refl n
  · have h : Moves heard n (n.stepDownForAppend args.term) :=
      stepDownForAppend_moves (by omega) hh
    dsimp only
    split
    · exact h.andThen rfl rfl (Or.inl rfl) (Or.inl rfl)
    · exact h.andThen rfl rfl (Or.inl rfl) (Or.inl rfl)
    · obtain ⟨l, lf, ci, he⟩ := stored_eq (n := Node.resetElectionTimer
        { n.stepDownForAppend args.term with leaderId := some args.leaderId })
        args.prevLogIndex args.leaderCommit args.entries
      rw [he]
      exact h.andThen rfl rfl (Or.inl rfl) (Or.inl rfl)

lemma stepDownForAppend_elections (t : ℕ) : (n.stepDownForAppend t).elections = n.elections := by
  unfold Node.stepDownForAppend
  split_ifs <;> rfl

lemma handleAppendEntries_elections (args : AppendEntriesArgs ι) :
    (n.handleAppendEntries args).1.elections = n.elections := by
  unfold Node.handleAppendEntries
  split_ifs with hlt
  · rfl
  · dsimp only
    split
    · exact stepDownForAppend_elections _
    · exact stepDownForAppend_elections _
    · obtain ⟨l, lf, ci, he⟩ := stored_eq (n := Node.resetElectionTimer
        { n.stepDownForAppend args.term with leaderId := some args.leaderId })
        args.prevLogIndex args.leaderCommit args.entries
      rw [he]
      exact stepDownForAppend_elections _

lemma appendEntry_eq {cfg : Config ι σ ρ} {cmd : Command} {w : ℕ}
    (h : n.appendEntry cfg cmd = .ok (m, w)) : n.state = .leader ∧ m.nodeId = n.nodeId ∧
      m.currentTerm = n.currentTerm ∧ m.state = n.state ∧ m.votedFor = n.votedFor ∧
      m.elections = n.elections := by
  unfold Node.appendEntry at h
  split_ifs at h with hl
  cases h
  exact ⟨not_not.mp hl, rfl, rfl, rfl, rfl, rfl⟩

lemma appendEntry_moves {cfg : Config ι σ ρ} {cmd : Command} {w : ℕ}
    (h : n.appendEntry cfg cmd = .ok (m, w)) : Moves heard n m := by
  obtain ⟨-, hid, ht, hs, hv, -⟩ := appendEntry_eq h
  exact ⟨hid, Or.inr ⟨ht, Or.inl hs, Or.inl hv⟩⟩

variable [Fintype ι]

lemma startElection_moves (h : n.startElection = some m) : Moves heard n m := by
  simp only [Node.startElection] at h
  split_ifs at h
  · cases h
    exact ⟨rfl, Or.inr ⟨rfl, Or.inl rfl, Or.inl rfl⟩⟩
  · cases h
    have hs : Role.candidate ≠ .leader := by decide
    exact ⟨rfl, Or.inl ⟨Nat.lt_succ_self _, hs, fun _ => rfl⟩⟩

lemma handleRequestVoteReply_moves {peer : ι} {t : ℕ} {reply : RequestVoteReply}
    (h : n.handleRequestVoteReply peer t reply = some m) : Moves heard n m := by
  unfold Node.handleRequestVoteReply at h
  split at h
  · cases h
  · dsimp only at h
    split_ifs at h with _ hlt
    · cases h
      exact ⟨rfl, Or.inl ⟨hlt, nofun, nofun⟩⟩
    · cases h
      exact ⟨rfl, Or.inr ⟨rfl, Or.inl rfl, Or.inl rfl⟩⟩
    · cases h
      exact ⟨rfl, Or.inr ⟨rfl, Or.inl rfl, Or.inl rfl⟩⟩

lemma electionEnds_lost {t : ℕ} (h : n.electionEnds t = some (m, false)) :
    ∃ el, n.elections t = some el ∧
      (m = n.setElection t { el with running := false } ∨
        m = (n.setElection t { el with running := false }).resetElectionTimer) := by
  unfold Node.electionEnds at h
  split at h
  · cases h
  · rename_i el hel
    dsimp only at h
    split_ifs at h
    · cases h
      exact ⟨el, hel, Or.inl rfl⟩
    · cases h
    · cases h
      exact ⟨el, hel, Or.inr rfl⟩

/-- An election is only won by a candidate still in its term, with enough votes. -/
lemma electionEnds_won {t : ℕ} (h : n.electionEnds t = some (m, true)) :
    ∃ el, n.elections t = some el ∧ n.state = .candidate ∧ n.currentTerm = t ∧
      el.votesNeeded ≤ el.votes ∧
      m = (n.setElection t { el with running := false }).becomeLeader := by
  unfold Node.electionEnds at h
  split at h
  · cases h
  · rename_i el hel
    dsimp only at h
    split_ifs at h with _ hc hv
    · cases h
    · cases h
      refine ⟨el, hel, ?_⟩
      simp only [Node.setElection, not_or, not_not] at hc
      exact ⟨hc.1, hc.2, hv, rfl⟩
    · cases h

lemma electionEnds_lost_moves {t : ℕ} (h : n.electionEnds t = some (m, false)) :
    Moves heard n m := by
  obtain ⟨el, -, rfl | rfl⟩ := electionEnds_lost h
  · exact ⟨rfl, Or.inr ⟨rfl, Or.inl rfl, Or.inl rfl⟩⟩
  · exact ⟨rfl, Or.inr ⟨rfl, Or.inl rfl, Or.inl rfl⟩⟩

/-- A reply to a replication request: a step down, or a change of the leader's bookkeeping. -/
lemma handleAppendEntriesReply_cases (peer : ι) (args : AppendEntriesArgs ι)
    (reply : AppendEntriesReply) :
    (n.currentTerm < reply.term ∧
      n.handleAppendEntriesReply peer args reply = n.becomeFollower reply.term) ∨
    ∃ ni mi ci, n.handleAppendEntriesReply peer args reply =
      { n with nextIndex := ni, matchIndex := mi, commitIndex := ci } := by
  unfold Node.handleAppendEntriesReply Node.raiseMatch
  split_ifs with h
  · exact Or.inl ⟨h, rfl⟩
  all_goals exact Or.inr ⟨_, _, _, rfl⟩

lemma handleAppendEntriesReply_moves (peer : ι) (args : AppendEntriesArgs ι)
    (reply : AppendEntriesReply) : Moves heard n (n.handleAppendEntriesReply peer args reply) := by
  rcases handleAppendEntriesReply_cases (n := n) peer args reply with ⟨h, he⟩ | ⟨_, _, _, he⟩
  · rw [he]
    exact becomeFollower_moves h
  · rw [he]
    exact ⟨rfl, Or.inr ⟨rfl, Or.inl rfl, Or.inl rfl⟩⟩

lemma handleAppendEntriesReply_elections (peer : ι) (args : AppendEntriesArgs ι)
    (reply : AppendEntriesReply) :
    (n.handleAppendEntriesReply peer args reply).elections = n.elections := by
  rcases handleAppendEntriesReply_cases (n := n) peer args reply with ⟨_, he⟩ | ⟨_, _, _, he⟩
  · rw [he]
    rfl
  · rw [he]

lemma majority_eq : n.majority = Fintype.card ι / 2 + 1 := by
  have hpos : 0 < Fintype.card ι := Fintype.card_pos_iff.mpr ⟨n.nodeId⟩
  rw [Node.majority, Node.peers, Finset.card_erase_of_mem (Finset.mem_univ _), Finset.card_univ]
  congr 2
  omega

end DistributedStorage.Raft
