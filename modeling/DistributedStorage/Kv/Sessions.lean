import DistributedStorage.Kv.ExactlyOnce
import DistributedStorage.Raft.Applier

/-! What a session stands for: a request that was executed, not answered from the table. -/

namespace DistributedStorage.Kv

open Library Raft

variable {loads : Bytes → Except String CasSpec} {M : ℕ} {es fs : List Entry} {e : Entry}
  {m : KVStateMachine}

/-- Among `es`, entry `e` is executed at the place behind `pre`, with result `r`. -/
structure ExecutedAt (loads : Bytes → Except String CasSpec) (M : ℕ) (pre : List Entry) (e : Entry)
    (r : Result) : Prop where
  unanswered : Unanswered ((KVStateMachine.init M).run loads pre) e
  result : (((KVStateMachine.init M).run loads pre).toTables.applyOp loads e).2 = .ok r

def Executed (loads : Bytes → Except String CasSpec) (M : ℕ) (es : List Entry) (e : Entry)
    (r : Result) : Prop :=
  ∃ pre, pre ++ [e] <+: es ∧ ExecutedAt loads M pre e r

lemma Executed.mono {r : Result} (h : Executed loads M es e r) (hp : es <+: fs) :
    Executed loads M fs e r :=
  let ⟨pre, hpre, hex⟩ := h
  ⟨pre, hpre.trans hp, hex⟩

lemma Executed.mem {r : Result} (h : Executed loads M es e r) : e ∈ es := by
  obtain ⟨pre, hpre, -⟩ := h
  exact hpre.subset (List.mem_append_right _ (List.mem_singleton.mpr rfl))

lemma sessionResult_eq_some {c : String} {seq : ℤ} {r : Result}
    (h : m.sessionResult c seq = some r) : ∃ s, m.sessions.get c = some s ∧
      ((seq = s.seq ∧ r = s.result) ∨ (seq < s.seq ∧ r = staleResult)) := by
  simp only [KVStateMachine.sessionResult] at h
  cases hs : m.sessions.get c with
  | none =>
    rw [hs] at h
    cases h
  | some s =>
    rw [hs] at h
    dsimp only at h
    split_ifs at h with hlt heq
    · cases h
      exact ⟨s, rfl, .inl ⟨heq, rfl⟩⟩
    · cases h
      exact ⟨s, rfl, .inr ⟨by omega, rfl⟩⟩

/-- A session in the table is that of a request of its client, or was there before. -/
lemma remember_get_some {c c' : String} {seq : ℤ} {r : Result} {s : Session}
    (h : (m.remember c seq r).sessions.get c' = some s) :
    (c = c' ∧ s = ⟨seq, r⟩) ∨ m.sessions.get c' = some s := by
  have hm := OrderedDict.mem_popFirst (OrderedDict.get_eq_some.mp h)
  rw [← OrderedDict.get_eq_some, OrderedDict.get_moveToEnd_set] at hm
  split_ifs at hm with hc
  · cases hm
    exact .inl ⟨hc, rfl⟩
  · exact .inr hm

lemma session_origin (hop : ∀ e ∈ es, e.opType ≠ .snapshot) {c : String} {s : Session}
    (h : ((KVStateMachine.init M).run loads es).sessions.get c = some s) :
    ∃ e, e.clientId = c ∧ e.seqNum = s.seq ∧ Executed loads M es e s.result := by
  induction es using List.reverseRecOn with
  | nil => cases h
  | append_singleton es e ih =>
    rw [KVStateMachine.run_concat] at h
    have hold : ((KVStateMachine.init M).run loads es).sessions.get c = some s →
        ∃ f, f.clientId = c ∧ f.seqNum = s.seq ∧ Executed loads M (es ++ [e]) f s.result := by
      intro hs
      obtain ⟨f, hc, hseq, hex⟩ := ih (fun f hf => hop f (List.mem_append_left _ hf)) hs
      exact ⟨f, hc, hseq, hex.mono (List.prefix_append _ _)⟩
    have hout := ((KVStateMachine.init M).run loads es).outcome loads (hop e (by simp))
    generalize hap : ((KVStateMachine.init M).run loads es).apply loads e = out at hout h
    obtain ⟨m', result⟩ := out
    dsimp only at hout h
    cases hout with
    | answered r => exact hold h
    | raised exc => exact hold h
    | applied r hu hr =>
      by_cases ht : Tracked e.clientId e.seqNum
      · rw [if_pos ht] at h
        rcases remember_get_some h with ⟨hc, rfl⟩ | hs
        · exact ⟨e, hc, rfl, es, List.prefix_rfl, hu, hr⟩
        · exact hold hs
      · rw [if_neg ht] at h
        exact hold h

/-- Where an answer to a request of `c` numbered `seq` comes from: a request of that identity gave it
when it was executed, or a later one of the client has been executed. -/
inductive Answers (loads : Bytes → Except String CasSpec) (M : ℕ) (es : List Entry) (c : String)
    (seq : ℤ) (r : Result) : Prop
  | executed (e : Entry) : Tracked c seq → e.clientId = c → e.seqNum = seq →
      Executed loads M es e r → Answers loads M es c seq r
  | stale (e : Entry) (r' : Result) : Tracked c seq → r = staleResult → e.clientId = c →
      seq < e.seqNum → Executed loads M es e r' → Answers loads M es c seq r

lemma sessionResult_answers (hop : ∀ e ∈ es, e.opType ≠ .snapshot) {c : String} {seq : ℤ}
    {r : Result} (ht : Tracked c seq)
    (h : ((KVStateMachine.init M).run loads es).sessionResult c seq = some r) :
    Answers loads M es c seq r := by
  obtain ⟨s, hs, ⟨rfl, rfl⟩ | ⟨hlt, rfl⟩⟩ := sessionResult_eq_some h
  · obtain ⟨e, hc, hseq, hex⟩ := session_origin hop hs
    exact .executed e ht hc hseq hex
  · obtain ⟨e, hc, hseq, hex⟩ := session_origin hop hs
    exact .stale e s.result ht rfl hc (hseq ▸ hlt) hex

lemma lookupSession_answers (hop : ∀ e ∈ es, e.opType ≠ .snapshot) {c : String} {seq : ℤ}
    {r : Result} (h : ((KVStateMachine.init M).run loads es).lookupSession c seq = some r) :
    Answers loads M es c seq r := by
  simp only [KVStateMachine.lookupSession] at h
  split_ifs at h with hid
  rw [not_or, not_le] at hid
  exact sessionResult_answers hop hid h

/-- What applying an entry returns is what executing it gave, or an answer from the table. -/
lemma apply_answers (hop : ∀ f ∈ es ++ [e], f.opType ≠ .snapshot) {r : Result}
    (h : (((KVStateMachine.init M).run loads es).apply loads e).2 = .ok r) :
    Executed loads M (es ++ [e]) e r ∨ Answers loads M es e.clientId e.seqNum r := by
  have hout := ((KVStateMachine.init M).run loads es).outcome loads (hop e (by simp))
  generalize ((KVStateMachine.init M).run loads es).apply loads e = out at hout h
  obtain ⟨m', result⟩ := out
  dsimp only at hout h
  cases hout with
  | answered r' ht hs =>
    cases h
    exact .inr (sessionResult_answers (fun f hf => hop f (List.mem_append_left _ hf)) ht hs)
  | raised exc => cases h
  | applied r' hu hr =>
    cases h
    exact .inl ⟨es, List.prefix_rfl, hu, hr⟩

lemma Answers.mono {c : String} {seq : ℤ} {r : Result} (h : Answers loads M es c seq r)
    (hp : es <+: fs) : Answers loads M fs c seq r := by
  cases h with
  | executed e ht hc hs hex => exact .executed e ht hc hs (hex.mono hp)
  | stale e r' ht hr hc hs hex => exact .stale e r' ht hr hc hs (hex.mono hp)

/-- Executing an operation never gives the stale answer. -/
lemma applyOp_ne_stale {t : Tables} {r : Result} (h : (t.applyOp loads e).2 = .ok r) :
    r ≠ staleResult := by
  rintro rfl
  have hget : ∀ r : Result, r.get "stale" = none → (.ok r : Except String Result) ≠ .ok staleResult := by
    rintro r hr ⟨⟩
    cases hr
  simp only [Tables.applyOp] at h
  split at h
  · exact hget _ rfl h
  · split at h
    · exact hget _ rfl h
    · exact hget _ rfl h
  · split at h
    · cases h
    · split_ifs at h
      · exact hget _ rfl h
      · exact hget _ rfl h
  · exact hget _ rfl h

/-- While all tracked clients have their sessions, no request is executed twice. -/
lemma ExecutedAt.unique (hop : ∀ e ∈ es, e.opType ≠ .snapshot)
    (hM : (trackedClients es).dedup.length ≤ M) {pre pre' : List Entry} {f : Entry} {r r' : Result}
    (hpre : pre ++ [e] <+: es) (hpre' : pre' ++ [f] <+: es) (he : ExecutedAt loads M pre e r)
    (hf : ExecutedAt loads M pre' f r') (ht : Tracked e.clientId e.seqNum)
    (hc : f.clientId = e.clientId) (hs : f.seqNum = e.seqNum) : ¬ pre.length < pre'.length := by
  intro hlt
  have hsub : pre ++ [e] <+: pre' := by
    refine List.prefix_of_prefix_length_le hpre ((List.prefix_append _ _).trans hpre') ?_
    rw [List.length_append, List.length_singleton]
    exact hlt
  have hle : pre <+: es := (List.prefix_append _ _).trans hpre
  have hle' : pre' <+: es := (List.prefix_append _ _).trans hpre'
  obtain ⟨hrem, -⟩ := run_remembers loads pre (fun g hg => hop g (hle.subset hg))
    ((trackedClients_mono hle).trans hM)
  obtain ⟨hrem', -⟩ := run_remembers loads pre' (fun g hg => hop g (hle'.subset hg))
    ((trackedClients_mono hle').trans hM)
  have heff : e ∈ effective loads (pre ++ [e]) := by
    rw [effective_concat, if_pos]
    · exact List.mem_append_right _ (List.mem_singleton.mpr rfl)
    · refine ⟨hrem.unanswered_iff.mp he.unanswered, ?_⟩
      rw [← hrem.tables, he.result]
      rfl
  have hnew := hrem'.unanswered_iff.mp hf.unanswered (hc ▸ hs ▸ ht) e
    (effective_mono hsub |>.subset heff) hc.symm
  omega

end DistributedStorage.Kv
