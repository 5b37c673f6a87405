import DistributedStorage.Kv.Versions
import DistributedStorage.Library.RecentlyUsed

/-! The session table holds the clients whose requests were executed last. -/

namespace DistributedStorage.Kv

open Library Raft

variable (loads : Bytes → Except String CasSpec)

/-- The session that applying an entry records: none for a duplicate, or when it raises. -/
def sessionAt (m : KVStateMachine) (e : Entry) : Option (String × Session) :=
  if Tracked e.clientId e.seqNum ∧ Unanswered m e then
    match (m.apply loads e).2 with
    | .ok r => some (e.clientId, ⟨e.seqNum, r⟩)
    | .error _ => none
  else none

/-- The executed tracked entries, each with its client, number and result. -/
def executedSessions (m : KVStateMachine) : List Entry → List (String × Session)
  | [] => []
  | e :: es => (sessionAt loads m e).toList ++ executedSessions (m.apply loads e).1 es

variable {loads} {m : KVStateMachine} {es : List Entry} {e : Entry}

lemma executedSessions_concat : executedSessions loads m (es ++ [e]) =
    executedSessions loads m es ++ (sessionAt loads (m.run loads es) e).toList := by
  induction es generalizing m with
  | nil => simp [executedSessions, KVStateMachine.run]
  | cons f es ih =>
    rw [List.cons_append, executedSessions, ih, executedSessions, List.append_assoc]
    rfl

lemma remember_sessions (m : KVStateMachine) (c : String) (seq : ℤ) (r : Result) :
    (m.remember c seq r).sessions = m.sessions.touch m.maxSessions (c, ⟨seq, r⟩) := rfl

lemma apply_sessions (hop : e.opType ≠ .snapshot) : (m.apply loads e).1.sessions =
    (sessionAt loads m e).toList.foldl (OrderedDict.touch m.maxSessions) m.sessions := by
  have hout := m.outcome loads hop
  rw [sessionAt]
  generalize m.apply loads e = out at hout
  obtain ⟨m', result⟩ := out
  dsimp only at hout ⊢
  cases hout with
  | answered r ht hr =>
    rw [if_neg]
    · rfl
    · rintro ⟨-, hu⟩
      rw [hu ht] at hr
      cases hr
  | raised exc hu hr => split_ifs <;> rfl
  | applied r hu hr =>
    by_cases ht : Tracked e.clientId e.seqNum
    · have hboth : Tracked e.clientId e.seqNum ∧ Unanswered m e := ⟨ht, hu⟩
      rw [if_pos ht, if_pos hboth, remember_sessions]
      rfl
    · have hnot : ¬(Tracked e.clientId e.seqNum ∧ Unanswered m e) := fun h => ht h.1
      rw [if_neg ht, if_neg hnot]
      rfl

lemma run_sessions (M : ℕ) (hop : ∀ e ∈ es, e.opType ≠ .snapshot) :
    ((KVStateMachine.init M).run loads es).sessions =
      (executedSessions loads (.init M) es).foldl (OrderedDict.touch M) .empty := by
  induction es using List.reverseRecOn with
  | nil => rfl
  | append_singleton es e ih =>
    rw [KVStateMachine.run_concat, apply_sessions (hop e (by simp)), executedSessions_concat,
      List.foldl_append, ih fun f hf => hop f (List.mem_append_left _ hf),
      KVStateMachine.run_maxSessions]
    rfl

/-- The table is that of the last `M` clients whose tracked entries were executed, in this order, each
with what its last one left. -/
theorem session_table_recent (loads : Bytes → Except String CasSpec) (M : ℕ) (es : List Entry)
    (hop : ∀ e ∈ es, e.opType ≠ .snapshot) :
    ((KVStateMachine.init M).run loads es).sessions.items =
      (OrderedDict.latest (executedSessions loads (.init M) es)).rtake M ∧
    ((KVStateMachine.init M).run loads es).sessions.size =
      min M ((executedSessions loads (.init M) es).map Prod.fst).dedup.length ∧
    ∀ x ∈ (OrderedDict.latest (executedSessions loads (.init M) es)).rtake M,
      ((KVStateMachine.init M).run loads es).sessions.get x.1 = some x.2 := by
  have hitems : ((KVStateMachine.init M).run loads es).sessions.items =
      (OrderedDict.latest (executedSessions loads (.init M) es)).rtake M := by
    rw [run_sessions M hop, OrderedDict.foldl_touch_items]
  refine ⟨hitems, ?_, fun x hx => ?_⟩
  · rw [OrderedDict.size, hitems, OrderedDict.rtake_length, OrderedDict.latest_length]
  · rw [OrderedDict.get_eq_some, hitems]
    exact hx

/-- The client `a` writes again before `c` comes, so it is `b` that the table forgets. -/
def written (clientId : String) (seqNum : ℤ) : Entry := ⟨1, 2, .put, "k", [], clientId, seqNum⟩

theorem session_table_recent_three :
    ((KVStateMachine.init 2).run noCas
      [written "a" 1, written "b" 1, written "a" 2, written "b" 1, written "c" 1]).sessions.keys =
        ["a", "c"] := by
  obtain ⟨hitems, -, -⟩ := session_table_recent noCas 2
    [written "a" 1, written "b" 1, written "a" 2, written "b" 1, written "c" 1] (by decide)
  rw [OrderedDict.keys, hitems]
  decide +kernel

end DistributedStorage.Kv
