import DistributedStorage.Raft.AppendEntry

/-! What commit indices mean in runs where no leader counts a reply to a request of an earlier term: the
prefix they name is chosen by a majority and kept by the node. -/

set_option linter.unusedSectionVars false

namespace DistributedStorage.Raft

open Library.LeaderLogs Library.Runs

variable {ι σ ρ : Type} [DecidableEq ι]

/-- The entries of a log with their indices. -/
def numbered (p : List Entry) : List (ℕ × Entry) := (p.zipIdx 1).map Prod.swap

lemma numbered_append (p q : List Entry) :
    numbered (p ++ q) = numbered p ++ (q.zipIdx (1 + p.length)).map Prod.swap := by
  simp [numbered, List.zipIdx_append]

lemma numbered_isPrefix {p q : List Entry} (h : p <+: q) : numbered p <+: numbered q := by
  obtain ⟨r, rfl⟩ := h
  rw [numbered_append]
  exact List.prefix_append _ _

@[simp] lemma numbered_length (p : List Entry) : (numbered p).length = p.length := by
  simp [numbered]

lemma numbered_take (p : List Entry) (k : ℕ) : (numbered p).take k = numbered (p.take k) := by
  have h := List.prefix_iff_eq_take.mp (numbered_isPrefix (List.take_prefix k p))
  rw [h, numbered_length, List.length_take, List.take_eq_take_iff, numbered_length]
  omega

lemma mem_numbered {p : List Entry} {x : ℕ × Entry} (h : x ∈ numbered p) :
    0 < x.1 ∧ p[x.1 - 1]? = some x.2 := by
  obtain ⟨⟨e, k⟩, hk, rfl⟩ := List.mem_map.mp h
  have hh := List.mk_mem_zipIdx_iff_le_and_getElem?_sub.mp hk
  exact ⟨hh.1, hh.2⟩

lemma numbered_snd (p : List Entry) : (numbered p).map Prod.snd = p := by
  simp [numbered, Function.comp_def]

/-- What the applier takes continues the prefix it has. -/
lemma numbered_taken {log : List Entry} {a k : ℕ} (h : a + k ≤ log.length) :
    numbered (log.take a) ++ ((List.range' (a + 1) k).filterMap fun idx =>
      (log[idx - 1]?).map fun e => (idx, e)) = numbered (log.take (a + k)) := by
  induction k with
  | zero => simp
  | succ k ih =>
    have hlt : a + k < log.length := by omega
    rw [List.range'_concat, List.filterMap_append, ← List.append_assoc, ih (by omega),
      ← Nat.add_assoc, List.take_add_one, numbered_append]
    have hidx : a + 1 + 1 * k - 1 = a + k := by omega
    simp only [List.filterMap_cons, List.filterMap_nil, hidx, List.getElem?_eq_getElem hlt,
      Option.map_some, Option.toList_some, List.zipIdx_cons, List.zipIdx_nil, List.map_cons,
      List.map_nil, List.length_take, min_eq_left hlt.le, Prod.swap_prod_mk]
    rw [show a + 1 + 1 * k = 1 + (a + k) by omega]

variable {n m : Node ι σ ρ}

section

variable [Fintype ι]

/-- The scan keeps the commit index or finds an entry of the leader's term on a majority. -/
lemma scanCommit_cases (n : Node ι σ ρ) (k : ℕ) :
    n.scanCommit k = n.commitIndex ∨ (0 < n.scanCommit k ∧ n.Committable (n.scanCommit k)) := by
  induction k with
  | zero => exact Or.inl rfl
  | succ k ih =>
    simp only [Node.scanCommit]
    split_ifs with hle hc
    · exact Or.inl rfl
    · exact Or.inr ⟨Nat.succ_pos k, hc⟩
    · exact ih

/-- A success reply that raises a leader's `matchIndex` entry. -/
def Raises (n : Node ι σ ρ) (src : ι) (args : AppendEntriesArgs ι) (reply : AppendEntriesReply) :
    Prop :=
  reply.term ≤ n.currentTerm ∧ n.state = .leader ∧ reply.success = true ∧
    n.matchIndex src < args.prevLogIndex + args.entries.length

lemma handleAppendEntriesReply_match (src : ι) (args : AppendEntriesArgs ι)
    (reply : AppendEntriesReply) (hl : (n.handleAppendEntriesReply src args reply).state = .leader) :
    n.state = .leader ∧ ((n.handleAppendEntriesReply src args reply).matchIndex = n.matchIndex ∨
      (Raises n src args reply ∧ (n.handleAppendEntriesReply src args reply).matchIndex =
        Function.update n.matchIndex src (args.prevLogIndex + args.entries.length))) := by
  simp only [Node.handleAppendEntriesReply] at hl ⊢
  split_ifs at hl ⊢ with ht hs hr
  · cases hl
  · exact (hs hl).elim
  · rw [not_not] at hs
    refine ⟨hs, ?_⟩
    simp only [Node.advanceCommitIndex, Node.raiseMatch]
    split_ifs with hm
    · exact Or.inr ⟨⟨by omega, hs, hr, hm⟩, rfl⟩
    · exact Or.inl rfl
  · rw [not_not] at hs
    exact ⟨hs, Or.inl rfl⟩

lemma handleAppendEntriesReply_commit (src : ι) (args : AppendEntriesArgs ι)
    (reply : AppendEntriesReply) :
    (n.handleAppendEntriesReply src args reply).commitIndex = n.commitIndex ∨
      ((n.handleAppendEntriesReply src args reply).state = .leader ∧
        0 < (n.handleAppendEntriesReply src args reply).commitIndex ∧
        (n.handleAppendEntriesReply src args reply).Committable
          (n.handleAppendEntriesReply src args reply).commitIndex) := by
  simp only [Node.handleAppendEntriesReply]
  split_ifs with ht hs hr
  · exact Or.inl rfl
  · exact Or.inl rfl
  · rw [not_not] at hs
    generalize hk : n.raiseMatch src (args.prevLogIndex + args.entries.length) = k
    have hks : k.state = .leader ∧ k.commitIndex = n.commitIndex := by
      rw [← hk]
      simp only [Node.raiseMatch]
      split_ifs
      · exact ⟨hs, rfl⟩
      · exact ⟨hs, rfl⟩
    rcases scanCommit_cases k k.lastLogIndex with hc | ⟨hpos, hc⟩
    · exact Or.inl (hc.trans hks.2)
    · exact Or.inr ⟨hks.1, hpos, hc⟩
  · exact Or.inl rfl

/-- `m` leads only where `n` led, with the same bookkeeping, and its commit index is that of `n` unless
it starts over. -/
structure Steady (n m : Node ι σ ρ) : Prop where
  matchIndex : m.state = .leader →
    n.state = .leader ∧ m.currentTerm = n.currentTerm ∧ m.matchIndex = n.matchIndex
  commitIndex : m.commitIndex = n.commitIndex ∨ m.commitIndex = 0

lemma Steady.refl (n : Node ι σ ρ) : Steady n n := ⟨fun h => ⟨h, rfl, rfl⟩, Or.inl rfl⟩

lemma SameCore.steady (h : SameCore n m) : Steady n m :=
  ⟨fun hl => ⟨h.state ▸ hl, h.currentTerm, h.matchIndex⟩, Or.inl h.commitIndex⟩

lemma becomeFollower_steady (t : ℕ) : Steady n (n.becomeFollower t) := ⟨nofun, Or.inl rfl⟩

lemma restart_steady (cfg : Config ι σ ρ) (k : Node ι σ ρ) : Steady n (k.restart cfg) :=
  ⟨nofun, Or.inr rfl⟩

lemma startElection_steady (h : n.startElection = some m) : Steady n m := by
  simp only [Node.startElection] at h
  split_ifs at h
  · cases h
    exact ⟨fun hl => ⟨hl, rfl, rfl⟩, Or.inl rfl⟩
  · cases h
    exact ⟨fun hl => (by cases hl), Or.inl rfl⟩

lemma handleRequestVote_steady (args : RequestVoteArgs ι) :
    Steady n (n.handleRequestVote args).1 := by
  obtain ⟨v, hs, armed, he⟩ := handleRequestVote_eq (n := n) args
  rw [he]
  rcases stepDownForVote_eq (n := n) args.term with hd | ⟨-, hd⟩
  · rw [hd]
    exact ⟨fun hl => ⟨hl, rfl, rfl⟩, Or.inl rfl⟩
  · rw [hd]
    exact ⟨fun hl => (by cases hl), Or.inl rfl⟩

lemma handleRequestVoteReply_steady {peer : ι} {t : ℕ} {reply : RequestVoteReply}
    (h : n.handleRequestVoteReply peer t reply = some m) : Steady n m := by
  simp only [Node.handleRequestVoteReply] at h
  split at h
  · cases h
  · split_ifs at h
    · cases h
      exact ⟨fun hl => (by cases hl), Or.inl rfl⟩
    · cases h
      exact ⟨fun hl => ⟨hl, rfl, rfl⟩, Or.inl rfl⟩
    · cases h
      exact ⟨fun hl => ⟨hl, rfl, rfl⟩, Or.inl rfl⟩

lemma electionEnds_lost_steady {t : ℕ} (h : n.electionEnds t = some (m, false)) : Steady n m := by
  obtain ⟨el, -, rfl | rfl⟩ := electionEnds_lost h
  · exact ⟨fun hl => ⟨hl, rfl, rfl⟩, Or.inl rfl⟩
  · exact ⟨fun hl => ⟨hl, rfl, rfl⟩, Or.inl rfl⟩

lemma handleAppendEntries_match (args : AppendEntriesArgs ι)
    (hl : (n.handleAppendEntries args).1.state = .leader) : n.state = .leader ∧
      (n.handleAppendEntries args).1.currentTerm = n.currentTerm ∧
      (n.handleAppendEntries args).1.matchIndex = n.matchIndex := by
  have hstep (h : (n.stepDownForAppend args.term).state = .leader) : n.state = .leader ∧
      (n.stepDownForAppend args.term).currentTerm = n.currentTerm ∧
      (n.stepDownForAppend args.term).matchIndex = n.matchIndex := by
    simp only [Node.stepDownForAppend] at h ⊢
    split_ifs at h ⊢
    · cases h
    · cases h
    · exact ⟨h, rfl, rfl⟩
  simp only [Node.handleAppendEntries] at hl ⊢
  split_ifs at hl ⊢
  · exact ⟨hl, rfl, rfl⟩
  split at hl
  · exact hstep hl
  · exact hstep hl
  · obtain ⟨l, lf, ci, hst⟩ := stored_eq (n := Node.resetElectionTimer
      { n.stepDownForAppend args.term with leaderId := some args.leaderId })
      args.prevLogIndex args.leaderCommit args.entries
    rw [hst] at hl ⊢
    exact hstep hl

end

end DistributedStorage.Raft
