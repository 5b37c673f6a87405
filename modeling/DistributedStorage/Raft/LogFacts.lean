import DistributedStorage.Library.LeaderLogSafety
import DistributedStorage.Raft.ElectionSafety

/-! The append handler against the log of the leader that sent the request: what it leaves is the log
as it was, or the leader's prefix. -/

set_option linter.unusedSectionVars false

namespace DistributedStorage.Raft

open Library.LeaderLogs

variable {ι σ ρ : Type} [DecidableEq ι]

/-- The entry at list position `p` carries index `p + 1`. -/
def Aligned (log : List Entry) : Prop :=
  ∀ p e, log[p]? = some e → e.index = p + 1

lemma Aligned.of_isPrefix {l m : List Entry} (h : Aligned m) (hp : l <+: m) : Aligned l :=
  fun p e he => h p e (getElem?_of_isPrefix hp he)

lemma Aligned.concat {l : List Entry} {e : Entry} (h : Aligned l) (he : e.index = l.length + 1) :
    Aligned (l ++ [e]) := by
  intro p x hx
  rcases Nat.lt_trichotomy p l.length with hp | rfl | hp
  · rw [List.getElem?_append_left hp] at hx
    exact h p x hx
  · obtain rfl : e = x := by simpa using hx
    exact he
  · rw [List.getElem?_eq_none (by simp; omega)] at hx
    cases hx

lemma Aligned.lastIndex {l : List Entry} (h : Aligned l) :
    (l.getLast?.map Entry.index).getD 0 = l.length := by
  rcases List.eq_nil_or_concat' l with rfl | ⟨r, e, rfl⟩
  · rfl
  · have hh := h r.length e (by simp)
    simpa using hh

lemma Aligned.lastLogIndex {n : Node ι σ ρ} (h : Aligned n.log) : n.lastLogIndex = n.log.length :=
  Aligned.lastIndex h

lemma candidateLogUpToDate_iff {n : Node ι σ ρ} (h : Aligned n.log) {l : List Entry} :
    n.candidateLogUpToDate l.length (lastTerm Entry.term l) = true ↔
      UpToDate Entry.term l n.log := by
  have ht : n.lastLogTerm = lastTerm Entry.term n.log := rfl
  simp only [Node.candidateLogUpToDate, UpToDate, h.lastLogIndex, ht]
  split_ifs with hne
  · simp only [decide_eq_true_eq]
    omega
  · simp only [decide_eq_true_eq]
    omega

lemma insertEntries_end (log es : List Entry) :
    Node.insertEntries log log.length es = log ++ es := by
  induction es generalizing log with
  | nil => simp [Node.insertEntries]
  | cons e es ih =>
    have hh := ih (log ++ [e])
    rw [List.length_append, List.length_singleton] at hh
    simp [Node.insertEntries, hh]

/-- Where terms agree at a position, the two logs agree up to there. -/
def Matching (l m : List Entry) : Prop :=
  ∀ p x y, l[p]? = some x → m[p]? = some y → x.term = y.term → l.take (p + 1) = m.take (p + 1)

lemma Matching.get {l m : List Entry} (h : Matching l m) {p : ℕ} {x y : Entry}
    (hx : l[p]? = some x) (hy : m[p]? = some y) (ht : x.term = y.term) : x = y := by
  have hh := congrArg (fun r : List Entry => r[p]?) (h p x y hx hy ht)
  simp only [List.getElem?_take_of_lt (Nat.lt_succ_self p), hx, hy] at hh
  exact Option.some.inj hh

lemma rooted_matching {a : State ι Entry} {l m : List Entry} (hl : Rooted Entry.term a l)
    (hm : Rooted Entry.term a m) : Matching l m := by
  intro p x y hx hy ht
  have hlp := hl p x hx
  have hmp := hm p y hy
  rw [← ht] at hmp
  have hlen : (l.take (p + 1)).length = (m.take (p + 1)).length := by
    have := (List.getElem?_eq_some_iff.mp hx).1
    have := (List.getElem?_eq_some_iff.mp hy).1
    simp only [List.length_take]
    omega
  exact (List.prefix_of_prefix_length_le hlp hmp hlen.le).eq_of_length hlen

/-- The loop of the append handler on a batch that continues the common part of the two logs. -/
lemma insertEntries_eq {log p : List Entry} [Decidable (p <+: log)] (hm : Matching log p)
    {pos : ℕ} {es : List Entry} (hpos : pos ≤ log.length) (hp : log.take pos ++ es = p) :
    Node.insertEntries log pos es = accepted log p := by
  induction es generalizing pos with
  | nil =>
    have hpre : p <+: log := by
      rw [← hp, List.append_nil]
      exact List.take_prefix _ _
    simp [Node.insertEntries, accepted, hpre]
  | cons e es ih =>
    have hpe : p[pos]? = some e := by
      rw [← hp, List.getElem?_append_right (by simp), List.length_take, min_eq_left hpos]
      simp
    cases hx : log[pos]? with
    | none =>
      have hlen : pos = log.length := le_antisymm hpos (List.getElem?_eq_none_iff.mp hx)
      subst hlen
      rw [List.take_length] at hp
      rw [insertEntries_end, hp, accepted, if_neg]
      intro hpre
      have hle := hpre.length_le
      simp only [← hp, List.length_append, List.length_cons] at hle
      omega
    | some old =>
      have hlt : pos < log.length := (List.getElem?_eq_some_iff.mp hx).1
      by_cases ht : old.term = e.term
      · -- same term at the same position: the entry is there already
        have hold : old = e := hm.get hx hpe ht
        subst hold
        have htake : log.take (pos + 1) = log.take pos ++ [old] := by
          rw [List.take_add_one, hx, Option.toList_some]
        simp only [Node.insertEntries, hx, ne_eq, not_true_eq_false, if_false]
        apply ih hlt
        rw [htake, List.append_assoc]
        exact hp
      · have hcut : (log.take pos ++ [e]).length = pos + 1 := by
          simp [min_eq_left hpos]
        simp only [Node.insertEntries, hx, ne_eq, ht, not_false_eq_true, if_true]
        rw [← hcut, insertEntries_end, List.append_assoc, List.singleton_append, hp, accepted,
          if_neg]
        intro hpre
        have hh := getElem?_of_isPrefix hpre hpe
        rw [hx] at hh
        exact ht (congrArg Entry.term (Option.some.inj hh))

lemma stepDownForAppend_eq {n : Node ι σ ρ} (t : ℕ) (h : n.currentTerm ≤ t) :
    (n.stepDownForAppend t).currentTerm = t ∧ (n.stepDownForAppend t).log = n.log ∧
      (n.stepDownForAppend t).commitIndex = n.commitIndex := by
  simp only [Node.stepDownForAppend]
  split_ifs with hlt
  · exact ⟨rfl, rfl, rfl⟩
  · exact ⟨rfl, rfl, rfl⟩
  · exact ⟨by omega, rfl, rfl⟩

lemma storeEntries_log (n : Node ι σ ρ) (p : ℕ) (es : List Entry) :
    (n.storeEntries p es).log = Node.insertEntries n.log p es ∧
      (n.storeEntries p es).commitIndex = n.commitIndex := by
  simp only [Node.storeEntries]
  split_ifs with h
  · subst h
    exact ⟨rfl, rfl⟩
  · exact ⟨rfl, rfl⟩

lemma checkPrevious_rejects {n : Node ι σ ρ} {p t : ℕ} {r : AppendEntriesReply}
    (h : n.checkPrevious p t = some (some r)) : r.success = false := by
  simp only [Node.checkPrevious] at h
  split_ifs at h
  · cases h
  · cases h
    rfl
  · split at h
    · cases h
    · split_ifs at h
      · cases h
        rfl
      · cases h

lemma checkPrevious_passes {n : Node ι σ ρ} {p t : ℕ} (h : n.checkPrevious p t = some none) :
    p = 0 ∨ (p ≤ n.lastLogIndex ∧ (n.log[p - 1]?.map Entry.term) = some t) := by
  simp only [Node.checkPrevious] at h
  split_ifs at h with h0 h1
  · exact Or.inl h0
  · cases h
  · split at h
    · cases h
    · rename_i e he
      split_ifs at h with ht
      · cases h
      · exact Or.inr ⟨by omega, by simpa [he] using ht⟩

/-- The three ways an append request ends: too old, rejected, or stored. -/
inductive Appended (n : Node ι σ ρ) (args : AppendEntriesArgs ι) :
    Node ι σ ρ → Option AppendEntriesReply → Prop
  | stale (r : AppendEntriesReply) : args.term < n.currentTerm → r.success = false →
      Appended n args n (some r)
  | rejected (m : Node ι σ ρ) (r : Option AppendEntriesReply) : n.currentTerm ≤ args.term →
      m.currentTerm = args.term → m.log = n.log → m.commitIndex = n.commitIndex →
      (∀ x, r = some x → x.success = false) → Appended n args m r
  | stored (m : Node ι σ ρ) (r : AppendEntriesReply) : n.currentTerm ≤ args.term →
      m.currentTerm = args.term →
      (args.prevLogIndex = 0 ∨ (args.prevLogIndex ≤ n.lastLogIndex ∧
        (n.log[args.prevLogIndex - 1]?.map Entry.term) = some args.prevLogTerm)) →
      m.log = Node.insertEntries n.log args.prevLogIndex args.entries →
      (m.commitIndex = n.commitIndex ∨ (n.commitIndex < args.leaderCommit ∧
        m.commitIndex = min args.leaderCommit m.lastLogIndex)) → r.success = true →
      Appended n args m (some r)

lemma handleAppendEntries_appended (n : Node ι σ ρ) (args : AppendEntriesArgs ι) :
    Appended n args (n.handleAppendEntries args).1 (n.handleAppendEntries args).2 := by
  simp only [Node.handleAppendEntries]
  split_ifs with hlt
  · exact .stale _ hlt rfl
  have hle : n.currentTerm ≤ args.term := by omega
  obtain ⟨ht, hlog, hci⟩ := stepDownForAppend_eq args.term hle
  generalize hk : Node.resetElectionTimer
    { n.stepDownForAppend args.term with leaderId := some args.leaderId } = k
  have hkt : k.currentTerm = args.term := hk ▸ ht
  have hkl : k.log = n.log := hk ▸ hlog
  have hkc : k.commitIndex = n.commitIndex := hk ▸ hci
  have hki : k.lastLogIndex = n.lastLogIndex := by simp only [Node.lastLogIndex, hkl]
  cases hc : k.checkPrevious args.prevLogIndex args.prevLogTerm with
  | none => exact .rejected _ _ hle hkt hkl hkc nofun
  | some o =>
    cases o with
    | some reply =>
      refine .rejected _ _ hle hkt hkl hkc fun x hx => ?_
      cases hx
      exact checkPrevious_rejects hc
    | none =>
      have hprev := checkPrevious_passes hc
      rw [hki, hkl] at hprev
      obtain ⟨hsl, hsc⟩ := storeEntries_log k args.prevLogIndex args.entries
      have hst : (k.storeEntries args.prevLogIndex args.entries).currentTerm = args.term := by
        rw [← hkt]
        simp only [Node.storeEntries]
        split_ifs <;> rfl
      generalize hm : k.storeEntries args.prevLogIndex args.entries = m at hsl hsc hst
      rw [hkl] at hsl
      rw [hkc] at hsc
      have hu : (m.updateCommit args.leaderCommit).currentTerm = m.currentTerm ∧
          (m.updateCommit args.leaderCommit).log = m.log ∧
          ((m.updateCommit args.leaderCommit).commitIndex = m.commitIndex ∨
            (m.commitIndex < args.leaderCommit ∧ (m.updateCommit args.leaderCommit).commitIndex =
              min args.leaderCommit m.lastLogIndex)) := by
        simp only [Node.updateCommit]
        split_ifs with hcommit
        · exact ⟨rfl, rfl, Or.inr ⟨hcommit, rfl⟩⟩
        · exact ⟨rfl, rfl, Or.inl rfl⟩
      obtain ⟨hut, hul, huc⟩ := hu
      have hui : (m.updateCommit args.leaderCommit).lastLogIndex = m.lastLogIndex := by
        simp only [Node.lastLogIndex, hul]
      rw [hsc] at huc
      rw [← hui] at huc
      exact .stored _ _ hle (hut.trans hst) hprev (hul.trans hsl) huc rfl

end DistributedStorage.Raft
