import DistributedStorage.Library.LeaderLogs

/-! The history invariants of replication by leader logs hold in every state. -/

namespace DistributedStorage.Library.LeaderLogs

variable {ι E : Type*} {term : E → ℕ} {a b : State ι E}

lemma take_succ_of_isPrefix {l m : List E} {p : ℕ} {e : E} (h : l <+: m) (he : l[p]? = some e) :
    l.take (p + 1) = m.take (p + 1) := by
  obtain ⟨r, rfl⟩ := h
  have hp : p < l.length := (List.getElem?_eq_some_iff.mp he).1
  rw [List.take_append_of_le_length (by omega)]

lemma getElem?_of_isPrefix {l m : List E} {p : ℕ} {e : E} (h : l <+: m) (he : l[p]? = some e) :
    m[p]? = some e := by
  obtain ⟨r, rfl⟩ := h
  have hp : p < l.length := (List.getElem?_eq_some_iff.mp he).1
  rwa [List.getElem?_append_left hp]

lemma take_eq_of_isPrefix {l m : List E} {k : ℕ} (h : l <+: m) (hk : k ≤ l.length) :
    m.take k = l.take k := by
  obtain ⟨r, rfl⟩ := h
  exact List.take_append_of_le_length hk

lemma Rooted.of_isPrefix {l m : List E} (h : Rooted term a m) (hp : l <+: m) : Rooted term a l := by
  intro p e he
  rw [take_succ_of_isPrefix hp he]
  exact h p e (getElem?_of_isPrefix hp he)

lemma Rooted.grow {l : List E} (h : Rooted term a l)
    (hg : ∀ t, a.leaderLog t <+: b.leaderLog t) : Rooted term b l :=
  fun p e he => (h p e he).trans (hg _)

lemma Rooted.nil : Rooted term a [] := by
  intro p e he
  simp at he

lemma Rooted.concat {l : List E} {e : E} (h : Rooted term a l)
    (he : l ++ [e] <+: a.leaderLog (term e)) : Rooted term a (l ++ [e]) := by
  intro p x hx
  rcases Nat.lt_trichotomy p l.length with hp | rfl | hp
  · rw [List.getElem?_append_left hp] at hx
    rw [List.take_append_of_le_length (by omega)]
    exact h p x hx
  · obtain rfl : e = x := by simpa using hx
    rw [List.take_of_length_le (by simp)]
    exact he
  · rw [List.getElem?_eq_none (by simp; omega)] at hx
    simp at hx

/-- A log is a prefix of the leader log of its last term. -/
lemma Rooted.whole {l : List E} (h : Rooted term a l) : l <+: a.leaderLog (lastTerm term l) := by
  rcases List.eq_nil_or_concat' l with rfl | ⟨r, e, rfl⟩
  · exact List.nil_prefix
  · have hh := h r.length e (by simp)
    rwa [List.take_of_length_le (by simp), show term e = lastTerm term (r ++ [e]) by
      simp [lastTerm]] at hh

lemma carried_mono {t k m n : ℕ} (h : Carried a t k n) (hm : m ≤ n) : Carried a t k m :=
  fun u hu hun => h u hu (hun.trans hm)

section

variable [DecidableEq ι]

lemma lead_leaderLog_self (i : ι) (e : E) :
    (a.lead i e).leaderLog (a.cur i) = a.log i ++ [e] := by simp [State.lead]

lemma lead_leaderLog_of_ne {i : ι} {e : E} {t : ℕ} (h : t ≠ a.cur i) :
    (a.lead i e).leaderLog t = a.leaderLog t := by simp [State.lead, h]

lemma lead_log_self (i : ι) (e : E) : (a.lead i e).log i = a.log i ++ [e] := by
  simp [State.lead]

lemma lead_log_of_ne {i j : ι} {e : E} (h : j ≠ i) : (a.lead i e).log j = a.log j := by
  simp [State.lead, setLog_log_of_ne h]

lemma lead_acked_of_ne {i j : ι} {e : E} {t : ℕ} (h : ¬(j = i ∧ t = a.cur i)) :
    (a.lead i e).acked j t = a.acked j t := by
  rw [State.lead, acknowledge_acked_of_ne h]
  rfl

lemma lead_grows {i : ι} {e : E} (hold : a.leaderLog (a.cur i) <+: a.log i) (t : ℕ) :
    a.leaderLog t <+: (a.lead i e).leaderLog t := by
  by_cases ht : t = a.cur i
  · subst ht
    rw [lead_leaderLog_self]
    exact hold.trans (List.prefix_append _ _)
  · rw [lead_leaderLog_of_ne ht]

end

section

variable [Fintype ι]

lemma Inv.leader_terms (h : Inv term a) (t : ℕ) : ∀ e ∈ a.leaderLog t, term e ≤ t := by
  intro e he
  obtain ⟨es, hes, hterm⟩ := h.shape t (List.ne_nil_of_mem he)
  rw [hes, List.mem_append] at he
  rcases he with he | he
  · exact (h.election_terms t e he).le
  · exact (hterm e he).le

lemma Inv.log_sorted (h : Inv term a) (i : ι) : ((a.log i).map term).Pairwise (· ≤ ·) :=
  (h.sorted (lastTerm term (a.log i))).sublist ((h.rooted_log i).whole.sublist.map term)

/-- Without a leader log of its term, no log has an entry of that term. -/
lemma Inv.terms_below {i : ι} (h : Inv term a) (hn : a.leaderLog (a.cur i) = []) :
    ∀ e ∈ a.log i, term e < a.cur i := by
  intro e he
  refine lt_of_le_of_ne (h.log_terms i e he) fun heq => ?_
  obtain ⟨p, hp, rfl⟩ := List.mem_iff_getElem.mp he
  have hpre := h.rooted_log i p _ (List.getElem?_eq_getElem hp)
  rw [heq, hn, List.prefix_nil, List.take_eq_nil_iff] at hpre
  rcases hpre with hpre | hpre
  · omega
  · simp [hpre] at hp

lemma inv_init : Inv term (State.init ι E) where
  rooted_log _ := Rooted.nil
  rooted_leader _ := Rooted.nil
  rooted_ballot _ _ _ hb := hb.elim
  log_terms _ e he := by simp [State.init] at he
  shape t ht := (ht rfl).elim
  election_terms _ e he := by simp [State.init] at he
  sorted _ := by simp [State.init]
  ballot_cur _ _ _ hb := hb.elim
  acked_le _ _ := by simp [State.init]
  acked_cur _ _ hp := by simp [State.init] at hp
  keeps _ _ _ _ _ := by simp [State.prefixOf, State.init]
  ballot_keeps _ _ _ _ _ _ _ hb := hb.elim
  elected u hu := (hu rfl).elim

end

variable [Fintype ι] [DecidableEq ι]

lemma raise_inv {i : ι} {t : ℕ} (h : Inv term a) (ht : a.cur i < t) :
    Inv term { a with cur := Function.update a.cur i t } := by
  have hle : ∀ j, a.cur j ≤ Function.update a.cur i t j := by
    intro j
    by_cases hj : j = i
    · subst hj
      simpa using ht.le
    · simp [hj]
  exact { h with
    log_terms := fun j e he => (h.log_terms j e he).trans (hle j)
    ballot_cur := fun j u l hb => (h.ballot_cur j u l hb).trans (hle j)
    acked_cur := fun j u hu => (h.acked_cur j u hu).trans (hle j)
    keeps := fun j u k hk hc => h.keeps j u k hk (carried_mono hc (hle j)) }

omit [DecidableEq ι] in
lemma vote_inv {i : ι} (h : Inv term a) (hn : a.leaderLog (a.cur i) = []) :
    Inv term { a with
      ballot := fun j u l => a.ballot j u l ∨ (j = i ∧ u = a.cur i ∧ l = a.log i) } := by
  refine { h with
    rooted_ballot := ?_
    ballot_cur := ?_
    ballot_keeps := ?_
    elected := ?_ }
  · rintro j u l (hb | ⟨rfl, rfl, rfl⟩)
    · exact h.rooted_ballot j u l hb
    · exact h.rooted_log j
  · rintro j u l (hb | ⟨rfl, rfl, rfl⟩)
    · exact h.ballot_cur j u l hb
    · exact le_rfl
  · rintro j t k u l hk htu (hb | ⟨rfl, rfl, rfl⟩) hc
    · exact h.ballot_keeps j t k u l hk htu hb hc
    · -- the term voted in has no leader yet, so nothing more is asked of it
      refine h.keeps j t k hk fun v hv hvn hne => ?_
      rcases Nat.lt_or_eq_of_le hvn with hlt | rfl
      · exact hc v hv (by omega) hne
      · exact (hne hn).elim
  · intro u hu
    obtain ⟨Q, hQ, hb⟩ := h.elected u hu
    refine ⟨Q, hQ, fun j hj => ?_⟩
    obtain ⟨v, hv, hup⟩ := hb j hj
    exact ⟨v, Or.inl hv, hup⟩

lemma accepted_prefix {l p q : List E} [Decidable (p <+: l)] (hq : q <+: l) (hpq : q <+: p ∨ p <+: q) :
    q <+: accepted l p := by
  unfold accepted
  split_ifs with hp
  · exact hq
  · rcases hpq with hpq | hpq
    · exact hpq
    · exact (hp (hpq.trans hq)).elim

lemma accepted_eq (l p : List E) [Decidable (p <+: l)] :
    accepted l p = l ∨ accepted l p = p := by
  unfold accepted
  split_ifs
  · exact Or.inl rfl
  · exact Or.inr rfl

lemma prefix_accepted (l p : List E) [Decidable (p <+: l)] : p <+: accepted l p := by
  unfold accepted
  split_ifs with h
  · exact h
  · exact List.prefix_rfl

omit [DecidableEq ι] in
/-- Accepting a batch of the leader log of the current term loses nothing that was acknowledged. -/
lemma accept_keeps {i : ι} {k t m : ℕ} (h : Inv term a)
    [Decidable ((a.leaderLog (a.cur i)).take k <+: a.log i)] (hm : m ≤ a.acked i t)
    (hc : Carried a t m (a.cur i)) :
    a.prefixOf t m <+: accepted (a.log i) ((a.leaderLog (a.cur i)).take k) := by
  refine accepted_prefix (h.keeps i t m hm hc) ?_
  rcases Nat.eq_zero_or_pos m with rfl | hpos
  · exact Or.inl (by simp [State.prefixOf])
  have hle : t ≤ a.cur i := h.acked_cur i t (by omega)
  rcases Nat.lt_or_eq_of_le hle with hlt | rfl
  · by_cases hne : a.leaderLog (a.cur i) = []
    · exact Or.inr (by simp [hne])
    · -- the leader that sent the batch carries every acknowledged prefix
      obtain ⟨es, hes, _⟩ := h.shape _ hne
      have hall : a.prefixOf t m <+: a.leaderLog (a.cur i) :=
        (hc _ hlt le_rfl hne).trans ⟨es, hes.symm⟩
      exact List.prefix_or_prefix_of_prefix hall (List.take_prefix _ _)
  · exact List.prefix_or_prefix_of_prefix (List.take_prefix _ _) (List.take_prefix _ _)

open scoped Classical in
lemma accept_inv {i : ι} {k : ℕ} (h : Inv term a) (hk : k ≤ (a.leaderLog (a.cur i)).length) :
    Inv term ((a.setLog i (accepted (a.log i) ((a.leaderLog (a.cur i)).take k))).acknowledge i
      (a.cur i) k) := by
  set p := (a.leaderLog (a.cur i)).take k with hp
  have hpl : p <+: a.leaderLog (a.cur i) := List.take_prefix _ _
  refine
    { h with
      rooted_log := fun j => ?_
      log_terms := fun j e he => ?_
      acked_le := fun j t => ?_
      acked_cur := fun j t hpos => ?_
      keeps := fun j t m hm hc => ?_
      ballot_keeps := fun j t m u l hm htu hb hc => ?_ }
  · change Rooted term a ((a.setLog i _).log j)
    by_cases hj : j = i
    · subst hj
      rw [setLog_log_self]
      rcases accepted_eq (a.log j) p with he | he <;> rw [he]
      · exact h.rooted_log j
      · exact (h.rooted_leader _).of_isPrefix hpl
    · rw [setLog_log_of_ne hj]
      exact h.rooted_log j
  · rw [acknowledge_log] at he
    by_cases hj : j = i
    · subst hj
      rw [setLog_log_self] at he
      rcases accepted_eq (a.log j) p with hh | hh <;> rw [hh] at he
      · exact h.log_terms j e he
      · exact h.leader_terms _ e (hpl.subset he)
    · rw [setLog_log_of_ne hj] at he
      exact h.log_terms j e he
  · by_cases hj : j = i ∧ t = a.cur i
    · obtain ⟨rfl, rfl⟩ := hj
      simpa using ⟨h.acked_le j _, hk⟩
    · rw [acknowledge_acked_of_ne hj]
      exact h.acked_le j t
  · by_cases hj : j = i ∧ t = a.cur i
    · exact (hj.1 ▸ hj.2).le
    · rw [acknowledge_acked_of_ne hj] at hpos
      exact h.acked_cur j t hpos
  · change a.prefixOf t m <+: (a.setLog i _).log j
    by_cases hj : j = i
    · subst hj
      rw [setLog_log_self]
      by_cases ht : t = a.cur j
      · subst ht
        rw [acknowledge_acked_self] at hm
        rcases le_max_iff.mp hm with hm | hm
        · exact accept_keeps h hm hc
        · exact (List.take_prefix_take_left hm).trans (prefix_accepted _ _)
      · rw [acknowledge_acked_of_ne (fun hh => ht hh.2)] at hm
        exact accept_keeps h hm hc
    · rw [acknowledge_acked_of_ne (fun hh => hj hh.1)] at hm
      rw [setLog_log_of_ne hj]
      exact h.keeps j t m hm hc
  · by_cases hj : j = i ∧ t = a.cur i
    · obtain ⟨rfl, rfl⟩ := hj
      exact absurd (h.ballot_cur j u l hb) (by omega)
    · rw [acknowledge_acked_of_ne hj] at hm
      exact h.ballot_keeps j t m u l hm htu hb hc

/-- A leader's log grows. `base` is the log it was elected with, now or earlier. -/
lemma lead_inv {i : ι} {e : E} (base : List E) (h : Inv term a)
    (hold : a.leaderLog (a.cur i) <+: a.log i) (he : term e = a.cur i)
    (hbase : ∃ es, a.log i ++ [e] = base ++ es ∧ ∀ x ∈ es, term x = a.cur i)
    (hterms : ∀ x ∈ base, term x < a.cur i)
    (hsame : a.leaderLog (a.cur i) ≠ [] → base = a.electionLog (a.cur i))
    (hel : ∃ Q : Finset ι, Majority Q ∧
      ∀ j ∈ Q, ∃ v, a.ballot j (a.cur i) v ∧ UpToDate term base v) :
    Inv term { a.lead i e with
      electionLog := Function.update a.electionLog (a.cur i) base } := by
  set b : State ι E := { a.lead i e with
    electionLog := Function.update a.electionLog (a.cur i) base } with hb
  have hgrow : ∀ t, a.leaderLog t <+: b.leaderLog t := lead_grows hold
  have hself : b.leaderLog (a.cur i) = a.log i ++ [e] := lead_leaderLog_self i e
  have hother : ∀ {t}, t ≠ a.cur i → b.leaderLog t = a.leaderLog t := lead_leaderLog_of_ne
  have hnew : Rooted term b (a.log i ++ [e]) :=
    ((h.rooted_log i).grow hgrow).concat (by rw [he, hself])
  have hpre : ∀ {j t k}, k ≤ a.acked j t → b.prefixOf t k = a.prefixOf t k :=
    fun {j t _} hk => take_eq_of_isPrefix (hgrow t) (hk.trans (h.acked_le j t))
  have hcarried : ∀ {j t k n}, k ≤ a.acked j t → Carried b t k n → Carried a t k n := by
    intro j t k n hk hc u hu hun hne
    have hh := hc u hu hun (fun hn => hne (List.prefix_nil.mp (hn ▸ hgrow u)))
    rw [hpre hk] at hh
    by_cases hui : u = a.cur i
    · subst hui
      simpa [hb, hsame hne] using hh
    · simpa [hb, hui, State.lead] using hh
  refine ⟨?_, ?_, ?_, ?_, ?_, ?_, ?_, ?_, ?_, ?_, ?_, ?_, ?_⟩
  · intro j
    by_cases hj : j = i
    · subst hj
      exact (lead_log_self j e).symm ▸ hnew
    · exact (lead_log_of_ne (a := a) (e := e) hj).symm ▸ (h.rooted_log j).grow hgrow
  · intro t
    by_cases ht : t = a.cur i
    · rw [ht, hself]
      exact hnew
    · rw [hother ht]
      exact (h.rooted_leader t).grow hgrow
  · exact fun j u l hl => (h.rooted_ballot j u l hl).grow hgrow
  · intro j x hx
    by_cases hj : j = i
    · subst hj
      rw [show b.log j = a.log j ++ [e] from lead_log_self j e, List.mem_append,
        List.mem_singleton] at hx
      rcases hx with hx | rfl
      · exact h.log_terms j x hx
      · exact he.le
    · rw [show b.log j = a.log j from lead_log_of_ne hj] at hx
      exact h.log_terms j x hx
  · intro t ht
    by_cases hti : t = a.cur i
    · subst hti
      rw [hself]
      simpa [hb] using hbase
    · rw [hother hti] at ht ⊢
      simpa [hb, hti, State.lead] using h.shape t ht
  · intro t x hx
    by_cases hti : t = a.cur i
    · subst hti
      exact hterms x (by simpa [hb] using hx)
    · exact h.election_terms t x (by simpa [hb, hti, State.lead] using hx)
  · intro t
    by_cases hti : t = a.cur i
    · subst hti
      rw [hself, List.map_append, List.pairwise_append]
      refine ⟨h.log_sorted i, by simp, ?_⟩
      simpa [he] using h.log_terms i
    · rw [hother hti]
      exact h.sorted t
  · exact h.ballot_cur
  · intro j t
    by_cases hj : j = i ∧ t = a.cur i
    · obtain ⟨rfl, rfl⟩ := hj
      have hle : a.acked j (a.cur j) ≤ (a.log j).length := (h.acked_le j _).trans hold.length_le
      rw [hself]
      simpa [hb, State.lead, State.acknowledge] using by omega
    · exact (lead_acked_of_ne hj).symm ▸ (h.acked_le j t).trans (hgrow t).length_le
  · intro j t hpos
    by_cases hj : j = i ∧ t = a.cur i
    · exact (hj.1 ▸ hj.2).le
    · exact h.acked_cur j t (lead_acked_of_ne hj ▸ hpos)
  · intro j t k hk hc
    by_cases hj : j = i ∧ t = a.cur i
    · obtain ⟨rfl, rfl⟩ := hj
      rw [show b.log j = a.log j ++ [e] from lead_log_self j e, State.prefixOf, hself]
      exact List.take_prefix _ _
    · have hk' : k ≤ a.acked j t := by
        rwa [show b.acked j t = a.acked j t from lead_acked_of_ne hj] at hk
      have hkeep := h.keeps j t k hk' (hcarried hk' hc)
      rw [hpre hk']
      by_cases hji : j = i
      · subst hji
        rw [show b.log j = a.log j ++ [e] from lead_log_self j e]
        exact hkeep.trans (List.prefix_append _ _)
      · rwa [show b.log j = a.log j from lead_log_of_ne hji]
  · intro j t k u l hk htu hl hc
    by_cases hj : j = i ∧ t = a.cur i
    · obtain ⟨rfl, rfl⟩ := hj
      exact absurd (h.ballot_cur j u l hl) (by omega)
    · have hk' : k ≤ a.acked j t := by
        rwa [show b.acked j t = a.acked j t from lead_acked_of_ne hj] at hk
      rw [hpre hk']
      exact h.ballot_keeps j t k u l hk' htu hl (hcarried hk' hc)
  · intro u hu
    by_cases hui : u = a.cur i
    · subst hui
      simpa [hb, State.lead] using hel
    · rw [hother hui] at hu
      simpa [hb, State.lead, hui] using h.elected u hu

lemma step_inv (h : Inv term a) (hs : Step term a b) : Inv term b := by
  cases hs with
  | raise i t ht => exact raise_inv h ht
  | vote i hn => exact vote_inv h hn
  | elect i e hn he hQ =>
    exact lead_inv _ h (hn ▸ List.nil_prefix) he ⟨[e], rfl, by simpa using he⟩ (h.terms_below hn)
      (fun hne => (hne hn).elim) hQ
  | extend i e hl hne he =>
    have hne' : a.leaderLog (a.cur i) ≠ [] := hl ▸ hne
    obtain ⟨es, hes, hterm⟩ := h.shape _ hne'
    have hh := lead_inv (a.electionLog (a.cur i)) h (hl ▸ List.prefix_rfl) he
      ⟨es ++ [e], by rw [← List.append_assoc, ← hes, hl], by
        simpa [or_imp, forall_and, he] using hterm⟩
      (h.election_terms _) (fun _ => rfl) (h.elected _ hne')
    rwa [Function.update_eq_self] at hh
  | accept i k hk => exact accept_inv h hk

lemma run_inv (h : Inv term a) (hr : Relation.ReflTransGen (Step term) a b) : Inv term b := by
  induction hr with
  | refl => exact h
  | tail _ hs ih => exact step_inv ih hs

end DistributedStorage.Library.LeaderLogs
