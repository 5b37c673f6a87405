import DistributedStorage.Raft.Settling

/-! Rejected append requests: the hint never lies above the probed index, and the leader goes back to it
or to the place behind its own last entry of the conflicting term. -/

set_option linter.unusedSectionVars false

namespace DistributedStorage.Raft

variable {ι σ ρ : Type} [DecidableEq ι]

lemma firstIndexOfTerm_le (log : List Entry) (t ci : ℕ) : Node.firstIndexOfTerm log t ci ≤ ci := by
  fun_induction Node.firstIndexOfTerm log t ci with
  | case1 ci hterm ih => omega
  | case2 ci hterm => exact le_rfl
  | case3 ci hci => exact le_rfl

lemma firstIndexOfTerm_pos (log : List Entry) (t : ℕ) {ci : ℕ} (h : 0 < ci) :
    0 < Node.firstIndexOfTerm log t ci := by
  fun_induction Node.firstIndexOfTerm log t ci with
  | case1 ci hterm ih => exact ih (Nat.succ_pos ci)
  | case2 ci hterm => exact h
  | case3 ci hci => exact h

variable {n : Node ι σ ρ}

/-- The replies that reject a request. -/
inductive Rejects (n : Node ι σ ρ) (args : AppendEntriesArgs ι) : AppendEntriesReply → Prop
  | stale : args.term < n.currentTerm → Rejects n args ⟨n.currentTerm, false, 0, 0⟩
  | missing : n.currentTerm ≤ args.term → n.lastLogIndex < args.prevLogIndex →
      Rejects n args ⟨args.term, false, n.lastLogIndex + 1, 0⟩
  | conflict (e : Entry) : n.currentTerm ≤ args.term → 0 < args.prevLogIndex →
      n.log[args.prevLogIndex - 1]? = some e → e.term ≠ args.prevLogTerm →
      Rejects n args ⟨args.term, false,
        Node.firstIndexOfTerm n.log e.term args.prevLogIndex, e.term⟩

lemma handleAppendEntries_rejects {args : AppendEntriesArgs ι} {reply : AppendEntriesReply}
    (h : (n.handleAppendEntries args).2 = some reply) (hr : reply.success = false) :
    Rejects n args reply := by
  simp only [Node.handleAppendEntries] at h
  split_ifs at h with hlt
  · cases h
    exact .stale hlt
  have hle : n.currentTerm ≤ args.term := by omega
  obtain ⟨hterm, hlog, -⟩ := stepDownForAppend_eq args.term hle
  generalize hk : Node.resetElectionTimer
    { n.stepDownForAppend args.term with leaderId := some args.leaderId } = k at h
  have hkt : k.currentTerm = args.term := hk ▸ hterm
  have hkl : k.log = n.log := hk ▸ hlog
  have hki : k.lastLogIndex = n.lastLogIndex := by simp only [Node.lastLogIndex, hkl]
  cases hc : k.checkPrevious args.prevLogIndex args.prevLogTerm with
  | none =>
    rw [hc] at h
    cases h
  | some answer =>
    rw [hc] at h
    cases answer with
    | none =>
      cases h
      cases hr
    | some r =>
      obtain rfl : r = reply := Option.some.inj h
      simp only [Node.checkPrevious, hki, hkl, hkt] at hc
      split_ifs at hc with h0 hmiss
      · cases hc
      · cases hc
        exact .missing hle hmiss
      · split at hc
        · cases hc
        · rename_i e he
          split_ifs at hc with hne
          · cases hc
            exact .conflict e hle (by omega) he hne
          · cases hc

lemma Rejects.hint_le {args : AppendEntriesArgs ι} {reply : AppendEntriesReply}
    (h : Rejects n args reply) : reply.conflictIndex ≤ args.prevLogIndex ∧
      (0 < reply.conflictTerm → 0 < reply.conflictIndex) := by
  cases h with
  | stale hlt => exact ⟨Nat.zero_le _, id⟩
  | missing hle hmiss => exact ⟨hmiss, fun h => absurd h (lt_irrefl 0)⟩
  | conflict e hle hpos he hne =>
    exact ⟨firstIndexOfTerm_le _ _ _, fun _ => firstIndexOfTerm_pos _ _ hpos⟩

lemma handleAppendEntries_failure {args : AppendEntriesArgs ι}
    (h : ∀ reply ∈ (n.handleAppendEntries args).2, reply.success = false) :
    (n.handleAppendEntries args).1.log = n.log := by
  have happ := handleAppendEntries_appended n args
  generalize n.handleAppendEntries args = out at happ h ⊢
  obtain ⟨m, reply⟩ := out
  cases happ with
  | stale r hlt => rfl
  | rejected m r hle hterm hlog => exact hlog
  | stored m r hle hterm hprev hlog hci hok =>
    rw [h r rfl] at hok
    cases hok

lemma handleAppendEntries_success {args : AppendEntriesArgs ι} {reply : AppendEntriesReply}
    (h : (n.handleAppendEntries args).2 = some reply) (hr : reply.success = true) :
    n.currentTerm ≤ args.term ∧ (args.prevLogIndex = 0 ∨
      (n.log[args.prevLogIndex - 1]?.map Entry.term) = some args.prevLogTerm) ∧
    (n.handleAppendEntries args).1.log = Node.insertEntries n.log args.prevLogIndex args.entries := by
  have happ := handleAppendEntries_appended n args
  rw [h] at happ
  generalize (n.handleAppendEntries args).1 = m at happ ⊢
  cases happ with
  | stale r hlt hfail =>
    rw [hfail] at hr
    cases hr
  | rejected m r hle hterm hlog hci hfail =>
    rw [hfail reply rfl] at hr
    cases hr
  | stored m r hle hterm hprev hlog hci hok => exact ⟨hle, hprev.imp_right And.right, hlog⟩

lemma handleAppendEntries_term {args : AppendEntriesArgs ι} (h : n.currentTerm ≤ args.term) :
    (n.handleAppendEntries args).1.currentTerm = args.term := by
  have happ := handleAppendEntries_appended n args
  generalize n.handleAppendEntries args = out at happ ⊢
  obtain ⟨m, reply⟩ := out
  cases happ with
  | stale r hlt => omega
  | rejected m r hle hterm => exact hterm
  | stored m r hle hterm => exact hterm

lemma Rejects.term {args : AppendEntriesArgs ι} {reply : AppendEntriesReply}
    (h : Rejects n args reply) (hle : n.currentTerm ≤ args.term) : reply.term = args.term := by
  cases h with
  | stale hlt => omega
  | missing hn hmiss => rfl
  | conflict e hn hpos he hne => rfl

lemma handleAppendEntries_answers (h : Aligned n.log) (args : AppendEntriesArgs ι) :
    ∃ reply, (n.handleAppendEntries args).2 = some reply := by
  simp only [Node.handleAppendEntries]
  split_ifs with hlt
  · exact ⟨_, rfl⟩
  obtain ⟨-, hlog, -⟩ := stepDownForAppend_eq args.term (not_lt.mp hlt)
  generalize hk : Node.resetElectionTimer
    { n.stepDownForAppend args.term with leaderId := some args.leaderId } = k
  have hkl : k.log = n.log := hk ▸ hlog
  have hki : k.lastLogIndex = k.log.length := Aligned.lastLogIndex (hkl ▸ h)
  cases hc : k.checkPrevious args.prevLogIndex args.prevLogTerm with
  | none =>
    simp only [Node.checkPrevious] at hc
    split_ifs at hc with h0 hmiss
    have hin : args.prevLogIndex - 1 < k.log.length := by omega
    rw [List.getElem?_eq_getElem hin] at hc
    dsimp only at hc
    split_ifs at hc
  | some answer =>
    cases answer with
    | none => exact ⟨_, rfl⟩
    | some reply => exact ⟨reply, rfl⟩

section Leader

variable [Fintype ι]

lemma appendEntriesArgs_isSome {peer : ι} (hl : n.state = .leader)
    (hiso : n.isolated = false) (hp : peer ≠ n.nodeId) (hle : n.nextIndex peer ≤ n.log.length + 1) :
    (n.appendEntriesArgs peer).isSome = true := by
  have hpeer : peer ∈ n.peers := Finset.mem_erase.mpr ⟨hp, Finset.mem_univ peer⟩
  rw [Node.appendEntriesArgs, if_neg (by simp [hl, hiso, hpeer])]
  dsimp only
  split_ifs with h0
  · rfl
  · have hin : n.nextIndex peer - 1 - 1 < n.log.length := by omega
    rw [List.getElem?_eq_getElem hin]
    rfl

lemma lastIndexOfTerm_cases (log : List Entry) (t k : ℕ) :
    (Node.lastIndexOfTerm log t k = 0) ∨ (0 < Node.lastIndexOfTerm log t k ∧
      Node.lastIndexOfTerm log t k ≤ k ∧
      (log[Node.lastIndexOfTerm log t k - 1]?.map Entry.term) = some t) := by
  induction k with
  | zero => exact Or.inl rfl
  | succ k ih =>
    simp only [Node.lastIndexOfTerm]
    split_ifs with hterm
    · exact Or.inr ⟨Nat.succ_pos k, le_rfl, hterm⟩
    · rcases ih with h0 | ⟨hpos, hle, he⟩
      · exact Or.inl h0
      · exact Or.inr ⟨hpos, by omega, he⟩

lemma backtrack_bounds (n : Node ι σ ρ) {ci ct : ℕ} (h : 0 < ct → 0 < ci) :
    0 < n.backtrack ci ct ∧ n.backtrack ci ct ≤ max (n.log.length + 1) ci := by
  simp only [Node.backtrack]
  split_ifs with hct hfound
  · rcases lastIndexOfTerm_cases n.log ct n.log.length with h0 | ⟨-, hle, -⟩
    · exact (hfound h0).elim
    · omega
  · have hpos := h hct
    omega
  · omega

lemma handleAppendEntriesReply_rejected {peer : ι} {args : AppendEntriesArgs ι}
    {reply : AppendEntriesReply} (hl : n.state = .leader) (ht : reply.term ≤ n.currentTerm)
    (hr : reply.success = false) : n.handleAppendEntriesReply peer args reply =
      n.setNextIndex peer (n.backtrack reply.conflictIndex reply.conflictTerm) := by
  rw [Node.handleAppendEntriesReply, if_neg ht.not_gt, if_neg (not_not.mpr hl), if_neg (by simp [hr])]

end Leader

end DistributedStorage.Raft
