import DistributedStorage.Raft.Cluster

/-! Every lock section leaves on disk exactly the term, the vote and the log it leaves in memory. -/

set_option linter.unusedSectionVars false

namespace DistributedStorage.Raft

variable {ι σ ρ : Type} [DecidableEq ι]

namespace Node

/-- What `_load_persistent_state` would read back is what the node holds in memory. -/
structure Durable (n : Node ι σ ρ) : Prop where
  term : (n.hardState.map Prod.fst).getD 0 = n.currentTerm
  vote : n.hardState.bind Prod.snd = n.votedFor
  log : n.logFile.getD [] = n.log

variable {n : Node ι σ ρ}

lemma becomeFollower_durable (h : n.Durable) (t : ℕ) : (n.becomeFollower t).Durable :=
  ⟨rfl, rfl, h.log⟩

lemma start_durable (cfg : Config ι σ ρ) (i : ι) (b : ℕ) (hs : Option (ℕ × Option ι))
    (lf : Option (List Entry)) : (start cfg i b hs lf).Durable :=
  ⟨rfl, rfl, rfl⟩

lemma restart_durable (cfg : Config ι σ ρ) : (n.restart cfg).Durable :=
  start_durable ..

lemma Durable.restart_currentTerm (cfg : Config ι σ ρ) (h : n.Durable) :
    (n.restart cfg).currentTerm = n.currentTerm := h.term

lemma Durable.restart_votedFor (cfg : Config ι σ ρ) (h : n.Durable) :
    (n.restart cfg).votedFor = n.votedFor := h.vote

lemma Durable.restart_log (cfg : Config ι σ ρ) (h : n.Durable) :
    (n.restart cfg).log = n.log := h.log

lemma stepDownForVote_durable (h : n.Durable) (t : ℕ) : (n.stepDownForVote t).Durable := by
  unfold stepDownForVote
  split_ifs
  · exact becomeFollower_durable h t
  · exact h

lemma stepDownForAppend_durable (h : n.Durable) (t : ℕ) : (n.stepDownForAppend t).Durable := by
  unfold stepDownForAppend
  split_ifs
  · exact becomeFollower_durable h t
  · exact becomeFollower_durable h t
  · exact h

lemma handleRequestVote_durable (h : n.Durable) (args : RequestVoteArgs ι) :
    (n.handleRequestVote args).1.Durable := by
  have hh := stepDownForVote_durable h args.term
  unfold handleRequestVote
  dsimp only
  split_ifs
  · exact ⟨rfl, rfl, hh.log⟩
  · exact hh

lemma storeEntries_durable (h : n.Durable) (p : ℕ) (es : List Entry) :
    (n.storeEntries p es).Durable := by
  unfold storeEntries
  split_ifs
  · exact h
  · exact ⟨h.term, h.vote, rfl⟩

lemma updateCommit_durable (h : n.Durable) (c : ℕ) : (n.updateCommit c).Durable := by
  unfold updateCommit
  split_ifs
  · exact ⟨h.term, h.vote, h.log⟩
  · exact h

lemma handleAppendEntries_durable (h : n.Durable) (args : AppendEntriesArgs ι) :
    (n.handleAppendEntries args).1.Durable := by
  have hh := stepDownForAppend_durable h args.term
  have hl : (resetElectionTimer { n.stepDownForAppend args.term with
    leaderId := some args.leaderId }).Durable := ⟨hh.term, hh.vote, hh.log⟩
  unfold handleAppendEntries
  split_ifs
  · exact h
  · dsimp only
    split
    · exact hl
    · exact hl
    · exact updateCommit_durable (storeEntries_durable hl _ _) _

lemma timerFires_durable {m : Node ι σ ρ} (h : n.Durable) (hm : n.timerFires = some m) :
    m.Durable := by
  unfold timerFires at hm
  split_ifs at hm
  cases hm
  exact ⟨h.term, h.vote, h.log⟩

lemma appendEntry_durable {cfg : Config ι σ ρ} {cmd : Command} {out : Node ι σ ρ × ℕ}
    (h : n.Durable) (hm : n.appendEntry cfg cmd = .ok out) : out.1.Durable := by
  unfold appendEntry at hm
  split_ifs at hm
  cases hm
  exact ⟨h.term, h.vote, rfl⟩

variable [Fintype ι]

lemma startElection_durable {m : Node ι σ ρ} (h : n.Durable) (hm : n.startElection = some m) :
    m.Durable := by
  simp only [startElection] at hm
  split_ifs at hm
  · cases hm
    exact ⟨h.term, h.vote, h.log⟩
  · cases hm
    exact ⟨rfl, rfl, h.log⟩

lemma handleRequestVoteReply_durable {m : Node ι σ ρ} {peer : ι} {term : ℕ}
    {reply : RequestVoteReply} (h : n.Durable)
    (hm : n.handleRequestVoteReply peer term reply = some m) : m.Durable := by
  unfold handleRequestVoteReply at hm
  split at hm
  · cases hm
  · dsimp only at hm
    split_ifs at hm
    · cases hm
      exact ⟨rfl, rfl, h.log⟩
    · cases hm
      exact ⟨h.term, h.vote, h.log⟩
    · cases hm
      exact ⟨h.term, h.vote, h.log⟩

lemma electionEnds_durable {term : ℕ} {out : Node ι σ ρ × Bool} (h : n.Durable)
    (hm : n.electionEnds term = some out) : out.1.Durable := by
  unfold electionEnds at hm
  split at hm
  · cases hm
  · dsimp only at hm
    split_ifs at hm
    · cases hm
      exact ⟨h.term, h.vote, h.log⟩
    · cases hm
      exact ⟨h.term, h.vote, rfl⟩
    · cases hm
      exact ⟨h.term, h.vote, h.log⟩

lemma handleAppendEntriesReply_durable {peer : ι} {args : AppendEntriesArgs ι}
    {reply : AppendEntriesReply} (h : n.Durable) :
    (n.handleAppendEntriesReply peer args reply).Durable := by
  unfold handleAppendEntriesReply
  split_ifs
  · exact becomeFollower_durable h _
  · exact h
  · unfold raiseMatch
    split_ifs <;> exact ⟨h.term, h.vote, h.log⟩
  · exact ⟨h.term, h.vote, h.log⟩

end Node

end DistributedStorage.Raft
