import DistributedStorage.Library.LeaderLogInvariants

/-! Safety of replication by leader logs: later leaders carry what was committed, committed prefixes
never disagree, and a participant never loses a committed prefix it has acknowledged. -/

namespace DistributedStorage.Library.LeaderLogs

variable {ι E : Type*} {term : E → ℕ} {a b c : State ι E}

/-- What no step takes back. -/
structure Grows (a b : State ι E) : Prop where
  cur : ∀ i, a.cur i ≤ b.cur i
  leaderLog : ∀ t, a.leaderLog t <+: b.leaderLog t
  electionLog : ∀ t, a.leaderLog t ≠ [] → b.electionLog t = a.electionLog t
  acked : ∀ i t, a.acked i t ≤ b.acked i t
  closed : ∀ i t, t < a.cur i → b.acked i t = a.acked i t
  ballot : ∀ i u l, a.ballot i u l → b.ballot i u l

lemma Grows.refl (a : State ι E) : Grows a a :=
  ⟨fun _ => le_rfl, fun _ => List.prefix_rfl, fun _ _ => rfl, fun _ _ => le_rfl, fun _ _ _ => rfl,
    fun _ _ _ h => h⟩

lemma Grows.trans (h : Grows a b) (k : Grows b c) : Grows a c where
  cur i := (h.cur i).trans (k.cur i)
  leaderLog t := (h.leaderLog t).trans (k.leaderLog t)
  electionLog t ht := by
    rw [k.electionLog t fun hn => ht (List.prefix_nil.mp (hn ▸ h.leaderLog t)), h.electionLog t ht]
  acked i t := (h.acked i t).trans (k.acked i t)
  closed i t ht := by rw [k.closed i t (ht.trans_le (h.cur i)), h.closed i t ht]
  ballot i u l hl := k.ballot i u l (h.ballot i u l hl)

lemma acknowledge_grows [DecidableEq ι] (a : State ι E) (i : ι) (k : ℕ) :
    Grows a (a.acknowledge i (a.cur i) k) where
  cur _ := le_rfl
  leaderLog _ := List.prefix_rfl
  electionLog _ _ := rfl
  acked j t := by
    by_cases hj : j = i ∧ t = a.cur i
    · obtain ⟨rfl, rfl⟩ := hj
      simp
    · rw [acknowledge_acked_of_ne hj]
  closed j t ht := acknowledge_acked_of_ne (by rintro ⟨rfl, rfl⟩; exact lt_irrefl _ ht)
  ballot _ _ _ h := h

lemma lead_acked_grows [DecidableEq ι] (a : State ι E) (i : ι) (e : E) :
    ∀ j t, a.acked j t ≤ (a.lead i e).acked j t :=
  (acknowledge_grows a i ((a.log i).length + 1)).acked

lemma step_grows [Fintype ι] [DecidableEq ι] (hs : Step term a b) : Grows a b := by
  cases hs with
  | raise i t ht =>
    refine { Grows.refl a with cur := fun j => ?_ }
    by_cases hj : j = i
    · subst hj
      simpa using ht.le
    · simp [hj]
  | vote i hn => exact { Grows.refl a with ballot := fun _ _ _ h => Or.inl h }
  | elect i e hn he hQ =>
    refine { Grows.refl a with
      leaderLog := lead_grows (hn ▸ List.nil_prefix)
      electionLog := fun t ht => ?_
      acked := lead_acked_grows a i e
      closed := (acknowledge_grows a i ((a.log i).length + 1)).closed }
    have hti : t ≠ a.cur i := fun hti => ht (hti ▸ hn)
    simp [hti]
  | extend i e hl hne he =>
    exact { Grows.refl a with
      leaderLog := lead_grows (hl ▸ List.prefix_rfl)
      acked := lead_acked_grows a i e
      closed := (acknowledge_grows a i ((a.log i).length + 1)).closed }
  | accept i k hk =>
    exact { Grows.refl a with
      acked := (acknowledge_grows a i k).acked
      closed := (acknowledge_grows a i k).closed }

lemma run_grows [Fintype ι] [DecidableEq ι] (hr : Relation.ReflTransGen (Step term) a b) :
    Grows a b := by
  induction hr with
  | refl => exact Grows.refl a
  | tail _ hs ih => exact ih.trans (step_grows hs)

def State.raiseTo [DecidableEq ι] (a : State ι E) (i : ι) (t : ℕ) : State ι E :=
  { a with cur := Function.update a.cur i t }

def State.recordVote (a : State ι E) (i : ι) : State ι E :=
  { a with ballot := fun j u l => a.ballot j u l ∨ (j = i ∧ u = a.cur i ∧ l = a.log i) }

lemma raiseTo_steps [Fintype ι] [DecidableEq ι] {i : ι} {t : ℕ} (h : a.cur i ≤ t) :
    Relation.ReflTransGen (Step term) a (a.raiseTo i t) := by
  rcases h.lt_or_eq with hlt | heq
  · exact .single (.raise a i t hlt)
  · rw [State.raiseTo, ← heq, Function.update_eq_self]

/-- A participant accepts a prefix of the leader log of its term. -/
lemma accept_step [Fintype ι] [DecidableEq ι] {i : ι} {p : List E}
    (hp : p <+: a.leaderLog (a.cur i)) [Decidable (p <+: a.log i)] :
    Step term a ((a.setLog i (accepted (a.log i) p)).acknowledge i (a.cur i) p.length) := by
  have hs : Step term a _ := .accept a i p.length hp.length_le
  have htake : (a.leaderLog (a.cur i)).take p.length = p := (List.prefix_iff_eq_take.mp hp).symm
  rw [htake] at hs
  convert hs

lemma Grows.prefixOf_eq {t k : ℕ} (h : Grows a b) (hk : k ≤ (a.leaderLog t).length) :
    b.prefixOf t k = a.prefixOf t k :=
  take_eq_of_isPrefix (h.leaderLog t) hk

/-- A leader log has an entry of its own term. -/
def Opened (term : E → ℕ) (a : State ι E) : Prop :=
  ∀ t, a.leaderLog t ≠ [] → ∃ e ∈ a.leaderLog t, term e = t

lemma init_opened : Opened term (State.init ι E) := fun _ h => (h rfl).elim

lemma Opened.lead [DecidableEq ι] (h : Opened term a) {i : ι} {e : E} (he : term e = a.cur i) :
    Opened term (a.lead i e) := by
  intro t ht
  by_cases hti : t = a.cur i
  · subst hti
    rw [lead_leaderLog_self]
    exact ⟨e, List.mem_append_right _ (List.mem_singleton.mpr rfl), he⟩
  · rw [lead_leaderLog_of_ne hti] at ht ⊢
    exact h t ht

lemma run_opened [Fintype ι] [DecidableEq ι] (h : Opened term a)
    (hr : Relation.ReflTransGen (Step term) a b) : Opened term b := by
  induction hr with
  | refl => exact h
  | tail _ hs ih =>
    cases hs with
    | raise i t ht => exact ih
    | vote i hn => exact ih
    | elect i e hn he hQ => exact ih.lead he
    | extend i e hl hne he => exact ih.lead he
    | accept i k hk => exact ih

section Batches

variable {F l m v : List E} {V : Set (List E)}

/-- `l` is what the log `F` has become once every batch of `V` was accepted. -/
structure Absorbs (F : List E) (V : Set (List E)) (l : List E) : Prop where
  holds : ∀ v ∈ V, v <+: l
  origin : l = F ∨ (l ∈ V ∧ ¬ l <+: F)

lemma Absorbs.refl (F : List E) : Absorbs F ∅ F where
  holds _ h := h.elim
  origin := Or.inl rfl

/-- Batches of one leader log are prefixes of each other, so the longest of them decides. -/
lemma Absorbs.accept {L : List E} [Decidable (v <+: l)] (h : Absorbs F V l)
    (hV : ∀ w ∈ V, w <+: L) (hv : v <+: L) : Absorbs F (insert v V) (accepted l v) := by
  unfold accepted
  split_ifs with hvl
  · exact ⟨fun w hw => hw.elim (fun hwv => hwv ▸ hvl) (h.holds w),
      h.origin.imp_right fun hl => ⟨Set.mem_insert_of_mem v hl.1, hl.2⟩⟩
  · have hlonger {w : List E} (hw : w ∈ V) : w <+: v :=
      (List.prefix_or_prefix_of_prefix (hV w hw) hv).resolve_right fun hvw =>
        hvl (hvw.trans (h.holds w hw))
    refine ⟨fun w hw => hw.elim (fun hwv => hwv ▸ List.prefix_rfl) hlonger,
      Or.inr ⟨Set.mem_insert v V, fun hvF => ?_⟩⟩
    rcases h.origin with rfl | ⟨hl, hlF⟩
    · exact hvl hvF
    · exact hlF ((hlonger hl).trans hvF)

/-- What is absorbed, in whatever order, decides the log. -/
lemma Absorbs.eq (h : Absorbs F V l) (k : Absorbs F V m) : l = m := by
  rcases h.origin with rfl | ⟨hl, hlF⟩
  · rcases k.origin with rfl | ⟨hm, hmF⟩
    · rfl
    · exact (hmF (h.holds m hm)).elim
  · rcases k.origin with rfl | ⟨hm, hmF⟩
    · exact (hlF (k.holds l hl)).elim
    · exact (k.holds l hl).eq_of_length_le (h.holds m hm).length_le

end Batches

variable [Fintype ι]

lemma Committed.le_length {t k : ℕ} (h : Committed term a t k) : k ≤ (a.leaderLog t).length := by
  obtain ⟨-, e, he, -, -⟩ := h
  have := (List.getElem?_eq_some_iff.mp he).1
  omega

lemma Committed.pos {t k : ℕ} (h : Committed term a t k) : 0 < k := h.2.choose_spec.2.2

lemma Committed.getElem? {t k : ℕ} (h : Committed term a t k) :
    ∃ e, (a.prefixOf t k)[k - 1]? = some e ∧ term e = t := by
  obtain ⟨-, e, he, ht, hpos⟩ := h
  exact ⟨e, by rwa [State.prefixOf, List.getElem?_take_of_lt (by omega)], ht⟩

lemma Committed.ne_nil {t k : ℕ} (h : Committed term a t k) : a.prefixOf t k ≠ [] := by
  have := h.le_length
  have := h.pos
  simp only [State.prefixOf, ne_eq, List.take_eq_nil_iff, not_or]
  exact ⟨by omega, List.ne_nil_of_length_pos (by omega)⟩

lemma Committed.grow {t k : ℕ} (h : Committed term a t k) (hg : Grows a b) :
    Committed term b t k := by
  obtain ⟨⟨Q, hQ, hack⟩, e, he, ht, hpos⟩ := h
  exact ⟨⟨Q, hQ, fun i hi => (hack i hi).trans (hg.acked i t)⟩, e,
    getElem?_of_isPrefix (hg.leaderLog t) he, ht, hpos⟩

lemma lastTerm_le {l : List E} {n : ℕ} (h : ∀ e ∈ l, term e ≤ n) : lastTerm term l ≤ n := by
  rcases List.eq_nil_or_concat' l with rfl | ⟨r, e, rfl⟩
  · simp [lastTerm]
  · simpa [lastTerm] using h e (by simp)

lemma le_lastTerm {l : List E} (h : (l.map term).Pairwise (· ≤ ·)) :
    ∀ e ∈ l, term e ≤ lastTerm term l := by
  rcases List.eq_nil_or_concat' l with rfl | ⟨r, x, rfl⟩
  · simp
  · simp only [List.map_append, List.pairwise_append] at h
    intro e he
    rw [List.mem_append, List.mem_singleton] at he
    rcases he with he | rfl
    · simpa [lastTerm] using h.2.2 (term e) (List.mem_map_of_mem he) (term x) (by simp)
    · simp [lastTerm]

lemma Inv.sorted_of_rooted (h : Inv term a) {l : List E} (hl : Rooted term a l) :
    (l.map term).Pairwise (· ≤ ·) :=
  (h.sorted (lastTerm term l)).sublist (hl.whole.sublist.map term)

/-- A log at least as up to date as one that holds a committed prefix holds it too, once the leaders
of the terms in between do. -/
lemma UpToDate.carries {t k u : ℕ} {l v : List E} (h : Inv term a) (hc : Committed term a t k)
    (hl : Rooted term a l) (hv : Rooted term a v) (hlt : ∀ e ∈ l, term e < u)
    (hcar : Carried a t k (u - 1)) (hpv : a.prefixOf t k <+: v) (hup : UpToDate term l v) :
    a.prefixOf t k <+: l := by
  obtain ⟨e, he, hte⟩ := hc.getElem?
  have hev : e ∈ v := hpv.subset (List.mem_of_getElem? he)
  have htv : t ≤ lastTerm term v := hte ▸ le_lastTerm (h.sorted_of_rooted hv) e hev
  rcases hup with hlast | ⟨hlast, hlen⟩
  · -- the last entry of `l` comes from a later leader, elected with the prefix
    set w := lastTerm term l with hw
    have hlne : l ≠ [] := by
      rintro rfl
      simp [lastTerm] at hw
      omega
    obtain ⟨r, x, rfl⟩ := (List.eq_nil_or_concat' l).resolve_left hlne
    have hx : term x = w := by simp [hw, lastTerm]
    have hwu : w < u := hx ▸ hlt x (by simp)
    have hwhole : r ++ [x] <+: a.leaderLog w := hl.whole
    have hne : a.leaderLog w ≠ [] := fun hn => by
      rw [hn, List.prefix_nil] at hwhole
      exact hlne hwhole
    obtain ⟨es, hes, -⟩ := h.shape w hne
    have hbase : a.electionLog w <+: r ++ [x] := by
      refine (List.prefix_or_prefix_of_prefix ⟨es, hes.symm⟩ hwhole).resolve_right fun hle => ?_
      exact absurd (h.election_terms w x (hle.subset (by simp))) (by omega)
    exact (hcar w (by omega) (by omega) hne).trans hbase
  · have hvl : v <+: l := by
      have hwv := hv.whole
      rw [hlast] at hwv
      exact List.prefix_of_prefix_length_le hwv hl.whole hlen
    exact hpv.trans hvl

variable [DecidableEq ι]

lemma Inv.leader_completeness {t k : ℕ} (h : Inv term a) (hc : Committed term a t k) (u : ℕ) :
    t < u → a.leaderLog u ≠ [] → a.prefixOf t k <+: a.electionLog u := by
  induction u using Nat.strong_induction_on with
  | _ u ih =>
    intro htu hne
    obtain ⟨Q, hQ, hack⟩ := hc.1
    obtain ⟨P, hP, hballot⟩ := h.elected u hne
    -- a voter of `u` that acknowledged the prefix before it voted
    obtain ⟨i, hiQ, hiP⟩ := hQ.meet hP
    obtain ⟨v, hv, hup⟩ := hballot i hiP
    have hcar : Carried a t k (u - 1) := fun w htw hwu hw => ih w (by omega) htw hw
    obtain ⟨es, hes, -⟩ := h.shape u hne
    have hroot : Rooted term a (a.electionLog u) :=
      (h.rooted_leader u).of_isPrefix ⟨es, hes.symm⟩
    exact hup.carries h hc hroot (h.rooted_ballot i u v hv) (h.election_terms u) hcar
      (h.ballot_keeps i t k u v (hack i hiQ) htu hv hcar)

lemma Inv.carried {t k n : ℕ} (h : Inv term a) (hc : Committed term a t k) : Carried a t k n :=
  fun u htu _ hne => h.leader_completeness hc u htu hne

lemma Inv.committed_in_leader {t k u : ℕ} (h : Inv term a) (hc : Committed term a t k)
    (htu : t ≤ u) (hne : a.leaderLog u ≠ []) : a.prefixOf t k <+: a.leaderLog u := by
  rcases Nat.lt_or_eq_of_le htu with htu | rfl
  · obtain ⟨es, hes, -⟩ := h.shape u hne
    exact (h.leader_completeness hc u htu hne).trans ⟨es, hes.symm⟩
  · exact List.take_prefix _ _

/-- `p` is part of a prefix committed in a term up to `n`. -/
def Chosen (term : E → ℕ) (a : State ι E) (n : ℕ) (p : List E) : Prop :=
  p = [] ∨ ∃ t ≤ n, ∃ k, Committed term a t k ∧ p <+: a.prefixOf t k

omit [DecidableEq ι] in
lemma Chosen.grow {n : ℕ} {p : List E} (h : Chosen term a n p) (hg : Grows a b) :
    Chosen term b n p := by
  rcases h with rfl | ⟨t, ht, k, hc, hp⟩
  · exact Or.inl rfl
  · exact Or.inr ⟨t, ht, k, hc.grow hg, by rwa [hg.prefixOf_eq hc.le_length]⟩

omit [DecidableEq ι] in
lemma Chosen.mono {m n : ℕ} {p : List E} (h : Chosen term a m p) (hn : m ≤ n) :
    Chosen term a n p := by
  rcases h with rfl | ⟨t, ht, k, hc, hp⟩
  · exact Or.inl rfl
  · exact Or.inr ⟨t, ht.trans hn, k, hc, hp⟩

omit [DecidableEq ι] in
lemma Chosen.of_isPrefix {n : ℕ} {p q : List E} (h : Chosen term a n q) (hp : p <+: q) :
    Chosen term a n p := by
  rcases h with rfl | ⟨t, ht, k, hc, hq⟩
  · exact Or.inl (List.prefix_nil.mp hp)
  · exact Or.inr ⟨t, ht, k, hc, hp.trans hq⟩

lemma Inv.chosen_in_leader {n u : ℕ} {p : List E} (h : Inv term a) (hp : Chosen term a n p)
    (hnu : n ≤ u) (hne : a.leaderLog u ≠ []) : p <+: a.leaderLog u := by
  rcases hp with rfl | ⟨t, ht, k, hc, hp⟩
  · exact List.nil_prefix
  · exact hp.trans (h.committed_in_leader hc (ht.trans hnu) hne)

lemma Inv.chosen_comparable {m n : ℕ} {p q : List E} (h : Inv term a) (hp : Chosen term a m p)
    (hq : Chosen term a n q) : p <+: q ∨ q <+: p := by
  rcases hp with rfl | ⟨t, -, k, hc, hp⟩
  · exact Or.inl List.nil_prefix
  rcases hq with rfl | ⟨u, -, l, hd, hq⟩
  · exact Or.inr List.nil_prefix
  have hnil : ∀ {t k}, Committed term a t k → a.leaderLog t ≠ [] := fun hc hn =>
    hc.ne_nil (by simp [State.prefixOf, hn])
  rcases Nat.le_total t u with htu | hut
  · exact List.prefix_or_prefix_of_prefix (hp.trans (h.committed_in_leader hc htu (hnil hd)))
      (hq.trans (List.take_prefix _ _))
  · exact List.prefix_or_prefix_of_prefix (hp.trans (List.take_prefix _ _))
      (hq.trans (h.committed_in_leader hd hut (hnil hc)))

/-- What was chosen while an entry was yet to be appended comes before it. -/
lemma Inv.chosen_before {m n k : ℕ} {p q : List E} {e : E} (ha : Inv term a) (hb : Inv term b)
    (hg : Grows a b) (hp : Chosen term a m p) (hq : Chosen term b n q) (he : q[k]? = some e)
    (hnew : (a.leaderLog (term e)).length ≤ k) : p <+: q := by
  refine (hb.chosen_comparable (hp.grow hg) hq).resolve_right fun hqp => ?_
  have hpe : p[k]? = some e := getElem?_of_isPrefix hqp he
  rcases hp with rfl | ⟨t, -, l, -, hpl⟩
  · cases hpe
  · have hlead : (a.leaderLog t)[k]? = some e :=
      getElem?_of_isPrefix (hpl.trans (List.take_prefix _ _)) hpe
    have hk := (List.getElem?_eq_some_iff.mp hlead).1
    have hle := (ha.rooted_leader t k e hlead).length_le
    rw [List.length_take] at hle
    omega

/-- `i` has acknowledged the committed prefix `p` to a leader that carries it. -/
def Kept (term : E → ℕ) (a : State ι E) (i : ι) (p : List E) : Prop :=
  ∃ t, p.length ≤ a.acked i t ∧ p <+: a.leaderLog t ∧ Chosen term a t p

omit [DecidableEq ι] in
lemma Kept.grow {i : ι} {p : List E} (h : Kept term a i p) (hg : Grows a b) : Kept term b i p := by
  obtain ⟨t, hack, hp, hc⟩ := h
  exact ⟨t, hack.trans (hg.acked i t), hp.trans (hg.leaderLog t), hc.grow hg⟩

omit [DecidableEq ι] in
lemma Kept.nil (i : ι) : Kept term a i [] :=
  ⟨0, Nat.zero_le _, List.nil_prefix, Or.inl rfl⟩

omit [DecidableEq ι] in
lemma Kept.of_isPrefix {i : ι} {p q : List E} (h : Kept term a i q) (hp : p <+: q) :
    Kept term a i p := by
  obtain ⟨t, hack, hq, hc⟩ := h
  exact ⟨t, hp.length_le.trans hack, hp.trans hq, hc.of_isPrefix hp⟩

lemma Inv.kept_prefix {i : ι} {p : List E} (h : Inv term a) (hk : Kept term a i p) :
    p <+: a.log i := by
  obtain ⟨t, hack, hp, hc⟩ := hk
  have heq : a.prefixOf t p.length = p := (List.prefix_iff_eq_take.mp hp).symm
  rw [← heq]
  refine h.keeps i t p.length hack fun u htu _ hne => ?_
  rw [heq]
  rcases hc with rfl | ⟨t₁, ht₁, k, hc, hpk⟩
  · exact List.nil_prefix
  · exact hpk.trans (h.leader_completeness hc u (by omega) hne)

/-- A majority has left term `t` without acknowledging `k` entries of its leader log. -/
def Sealed (a : State ι E) (t k : ℕ) : Prop :=
  ∃ Q : Finset ι, Majority Q ∧ ∀ i ∈ Q, t < a.cur i ∧ a.acked i t < k

omit [DecidableEq ι] in
lemma Sealed.grow {t k : ℕ} (h : Sealed a t k) (hg : Grows a b) : Sealed b t k := by
  obtain ⟨Q, hQ, hi⟩ := h
  refine ⟨Q, hQ, fun i hiQ => ?_⟩
  obtain ⟨hcur, hack⟩ := hi i hiQ
  exact ⟨hcur.trans_le (hg.cur i), by rwa [hg.closed i t hcur]⟩

lemma Sealed.not_committed {t k m : ℕ} (h : Sealed a t k) (hk : k ≤ m) :
    ¬ Committed term a t m := by
  rintro ⟨⟨P, hP, hack⟩, -⟩
  obtain ⟨Q, hQ, hi⟩ := h
  obtain ⟨i, hiP, hiQ⟩ := hP.meet hQ
  have := hack i hiP
  have := (hi i hiQ).2
  omega

omit [DecidableEq ι] in
/-- A commit in a later term seals what the leader of an earlier term has yet to append. -/
lemma Inv.sealed_of_committed {t u k m : ℕ} (h : Inv term a) (hc : Committed term a u m)
    (htu : t < u) (hk : (a.leaderLog t).length < k) : Sealed a t k := by
  have hpos := hc.pos
  obtain ⟨⟨Q, hQ, hack⟩, -⟩ := hc
  refine ⟨Q, hQ, fun i hi => ⟨?_, (h.acked_le i t).trans_lt hk⟩⟩
  have := hack i hi
  exact htu.trans_le (h.acked_cur i u (by omega))

end DistributedStorage.Library.LeaderLogs
