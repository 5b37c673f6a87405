import Mathlib.Data.List.Pairwise
import Mathlib.Data.List.Nodup

/-! Linearizability: what clients see of an object they share, an order in which they could have called it
one after the other, and how such an order is read off a log of writes with reads between them. -/

namespace DistributedStorage.Library.Linearizability

variable {K O A S : Type*}

/-- What clients see of their calls. A call may be made again under its name, and be answered again. -/
inductive Happening (K O A : Type*)
  | invoked (k : K) (op : O)
  | answered (k : K) (ans : A)

/-- An object that is called once at a time. -/
structure Object (S O A : Type*) where
  init : S
  step : S → O → S × A

/-- A call with its answer. -/
structure Served (K O A : Type*) where
  call : K
  op : O
  ans : A

/-- The object gives these answers, one after the other. -/
inductive Object.Gives (obj : Object S O A) : S → List (Served K O A) → S → Prop
  | nil (s : S) : obj.Gives s [] s
  | cons {s t u : S} {x : Served K O A} {l : List (Served K O A)} :
      obj.step s x.op = (t, x.ans) → obj.Gives t l u → obj.Gives s (x :: l) u

/-- `k` had been answered when `k'` was yet to be made. -/
def Precedes (H : List (Happening K O A)) (k k' : K) : Prop :=
  ∃ p, p <+: H ∧ (∃ ans, .answered k ans ∈ p) ∧ ∀ op, .invoked k' op ∉ p

/-- In the order of `l` the calls do not contradict real time. -/
def Follows (H : List (Happening K O A)) (x y : Served K O A) : Prop :=
  x.call ≠ y.call ∧ ¬ Precedes H y.call x.call

/-- The calls of `l`, made one after the other, explain the history: each was made, each answer that was
given is among theirs, and none comes before one that was answered first. -/
structure Linearization (obj : Object S O A) (H : List (Happening K O A)) (l : List (Served K O A)) :
    Prop where
  gives : ∃ s, obj.Gives obj.init l s
  ordered : l.Pairwise (Follows H)
  invoked : ∀ x ∈ l, .invoked x.call x.op ∈ H
  answered : ∀ k op ans, .invoked k op ∈ H → .answered k ans ∈ H → ⟨k, op, ans⟩ ∈ l

def Linearizable (obj : Object S O A) (H : List (Happening K O A)) : Prop :=
  ∃ l, Linearization obj H l

variable {obj : Object S O A} {H : List (Happening K O A)}

lemma Linearization.once {l : List (Served K O A)} (h : Linearization obj H l) :
    (l.map Served.call).Nodup :=
  List.pairwise_map.mpr (h.ordered.imp fun hxy => hxy.1)

lemma Object.Gives.append {s t u : S} {l l' : List (Served K O A)} (h : obj.Gives s l t)
    (h' : obj.Gives t l' u) : obj.Gives s (l ++ l') u := by
  induction h with
  | nil s => exact h'
  | cons hx _ ih => exact .cons hx (ih h')

lemma Object.Gives.stages {state : ℕ → S} {stage : ℕ → List (Served K O A)} {n : ℕ}
    (h : ∀ m < n, obj.Gives (state m) (stage m) (state (m + 1))) :
    obj.Gives (state 0) ((List.range n).flatMap stage) (state n) := by
  induction n with
  | zero => exact .nil _
  | succ n ih =>
    rw [List.range_succ, List.flatMap_append, List.flatMap_singleton]
    exact (ih fun m hm => h m (Nat.lt_succ_of_lt hm)).append (h n n.lt_succ_self)

/-- Operations that leave the object alone can be made any number of times. -/
lemma Object.Gives.idle {s : S} {l : List (Served K O A)} (h : ∀ x ∈ l, obj.step s x.op = (s, x.ans)) :
    obj.Gives s l s := by
  induction l with
  | nil => exact .nil s
  | cons x l ih => exact .cons (h x List.mem_cons_self) (ih fun y hy => h y (List.mem_cons_of_mem _ hy))

/-- A log of writes, some of its places without effect, and reads, each at the place of the log up to which
it has seen the writes. -/
structure Log (obj : Object S O A) (H : List (Happening K O A)) (n : ℕ) (state : ℕ → S)
    (write : ℕ → Option (Served K O A)) (reads : List (ℕ × Served K O A)) : Prop where
  init : state 0 = obj.init
  writes : ∀ m x, write m = some x → m < n ∧ obj.step (state m) x.op = (state (m + 1), x.ans)
  skips : ∀ m, write m = none → state (m + 1) = state m
  serves : ∀ r ∈ reads, r.1 ≤ n ∧ obj.step (state r.1) r.2.op = (state r.1, r.2.ans)
  write_invoked : ∀ m x, write m = some x → .invoked x.call x.op ∈ H
  read_invoked : ∀ r ∈ reads, .invoked r.2.call r.2.op ∈ H
  answered : ∀ k op ans, .invoked k op ∈ H → .answered k ans ∈ H →
    (∃ m, write m = some ⟨k, op, ans⟩) ∨ ∃ q, (q, ⟨k, op, ans⟩) ∈ reads
  write_write : ∀ m m' x y, write m = some x → write m' = some y → m < m' → Follows H x y
  write_read : ∀ m x r, write m = some x → r ∈ reads → m < r.1 → Follows H x r.2
  read_write : ∀ r m y, r ∈ reads → write m = some y → r.1 ≤ m → Follows H r.2 y
  read_read : ∀ r r', r ∈ reads → r' ∈ reads → r.1 < r'.1 → Follows H r.2 r'.2
  read_again : reads.Pairwise fun r r' => r.1 = r'.1 → Follows H r.2 r'.2

variable {n : ℕ} {state : ℕ → S} {write : ℕ → Option (Served K O A)} {reads : List (ℕ × Served K O A)}

/-- The reads at place `m`, then its write. -/
def stage (write : ℕ → Option (Served K O A)) (reads : List (ℕ × Served K O A)) (m : ℕ) :
    List (Served K O A) :=
  (reads.filter fun r => r.1 = m).map Prod.snd ++ (write m).toList

lemma mem_stage {m : ℕ} {x : Served K O A} :
    x ∈ stage write reads m ↔ (m, x) ∈ reads ∨ write m = some x := by
  rw [stage, List.mem_append, Option.mem_toList]
  refine or_congr_left ?_
  simp only [List.mem_map, List.mem_filter, decide_eq_true_eq]
  constructor
  · rintro ⟨⟨q, y⟩, ⟨hr, rfl⟩, rfl⟩
    exact hr
  · intro hr
    exact ⟨(m, x), ⟨hr, rfl⟩, rfl⟩

lemma Log.stage_gives (h : Log obj H n state write reads) (m : ℕ) :
    obj.Gives (state m) (stage write reads m) (state (m + 1)) := by
  have hreads : obj.Gives (state m) ((reads.filter fun r => r.1 = m).map Prod.snd) (state m) := by
    apply Object.Gives.idle
    intro x hx
    obtain ⟨r, hr, rfl⟩ := List.mem_map.mp hx
    obtain ⟨hmem, hat⟩ := List.mem_filter.mp hr
    have hplace : r.1 = m := of_decide_eq_true hat
    exact hplace ▸ (h.serves r hmem).2
  apply hreads.append
  cases hw : write m with
  | none =>
    rw [h.skips m hw]
    exact .nil _
  | some x => exact .cons (h.writes m x hw).2 (.nil _)

lemma Log.stage_ordered (h : Log obj H n state write reads) (m : ℕ) :
    (stage write reads m).Pairwise (Follows H) := by
  refine List.pairwise_append.mpr ⟨List.pairwise_map.mpr ?_, ?_, fun x hx y hy => ?_⟩
  · refine (h.read_again.filter _).imp_of_mem fun ha hb hab => hab ?_
    exact (of_decide_eq_true (List.mem_filter.mp ha).2).trans (of_decide_eq_true (List.mem_filter.mp hb).2).symm
  · cases write m with
    | none => exact List.Pairwise.nil
    | some x => exact List.pairwise_singleton _ _
  · obtain ⟨r, hr, rfl⟩ := List.mem_map.mp hx
    obtain ⟨hmem, hat⟩ := List.mem_filter.mp hr
    exact h.read_write r m y hmem (Option.mem_toList.mp hy) (Nat.le_of_eq (of_decide_eq_true hat))

lemma Log.stages_ordered (h : Log obj H n state write reads) {m m' : ℕ} (hlt : m < m')
    {x y : Served K O A} (hx : x ∈ stage write reads m) (hy : y ∈ stage write reads m') : Follows H x y := by
  rcases mem_stage.mp hx with hx | hx
  · rcases mem_stage.mp hy with hy | hy
    · exact h.read_read (m, x) (m', y) hx hy hlt
    · exact h.read_write (m, x) m' y hx hy (Nat.le_of_lt hlt)
  · rcases mem_stage.mp hy with hy | hy
    · exact h.write_read m x (m', y) hx hy hlt
    · exact h.write_write m m' x y hx hy hlt

/-- What a log explains is linearizable. -/
lemma Log.linearized (h : Log obj H n state write reads) : Linearizable obj H := by
  refine ⟨(List.range (n + 1)).flatMap (stage write reads), ?_, ?_, fun x hx => ?_,
    fun k op ans hinv hans => ?_⟩
  · rw [← h.init]
    exact ⟨_, Object.Gives.stages fun m _ => h.stage_gives m⟩
  · refine List.pairwise_flatMap.mpr ⟨fun m _ => h.stage_ordered m, ?_⟩
    exact List.pairwise_lt_range.imp fun hlt x hx y hy => h.stages_ordered hlt hx hy
  · obtain ⟨m, -, hm⟩ := List.mem_flatMap.mp hx
    rcases mem_stage.mp hm with hr | hw
    · exact h.read_invoked (m, x) hr
    · exact h.write_invoked m x hw
  · refine List.mem_flatMap.mpr ?_
    rcases h.answered k op ans hinv hans with ⟨m, hw⟩ | ⟨q, hr⟩
    · have hlt := (h.writes m _ hw).1
      exact ⟨m, List.mem_range.mpr (Nat.lt_succ_of_lt hlt), mem_stage.mpr (Or.inr hw)⟩
    · have hle := (h.serves _ hr).1
      exact ⟨q, List.mem_range.mpr (Nat.lt_succ_of_le hle), mem_stage.mpr (Or.inl hr)⟩

/-- What others see of the object: their operations, with their answers, are some of those of `l`, and the
rest leave the object alone. -/
structure View {K' O' A' : Type*} (obj : Object S O A) (H : List (Happening K O A)) (l : List (Served K O A))
    (obj' : Object S O' A') (H' : List (Happening K' O' A')) (R : Served K O A → Served K' O' A' → Prop) :
    Prop where
  init : obj'.init = obj.init
  single : ∀ x y y', R x y → R x y' → y = y'
  serves : ∀ x ∈ l, ∀ s t, obj.step s x.op = (t, x.ans) →
    (∃ y, R x y ∧ obj'.step s y.op = (t, y.ans)) ∨ ((∀ y, ¬ R x y) ∧ t = s)
  follows : ∀ x ∈ l, ∀ x' ∈ l, ∀ y y', R x y → R x' y' → Follows H x x' → Follows H' y y'
  invoked : ∀ x ∈ l, ∀ y, R x y → .invoked y.call y.op ∈ H'
  answered : ∀ k op ans, .invoked k op ∈ H' → .answered k ans ∈ H' → ∃ x ∈ l, R x ⟨k, op, ans⟩

variable {K' O' A' : Type*} {obj' : Object S O' A'} {H' : List (Happening K' O' A')}
  {R : Served K O A → Served K' O' A' → Prop}

lemma Object.Gives.view {f : Served K O A → Option (Served K' O' A')} {s t : S} {l : List (Served K O A)}
    (h : obj.Gives s l t) (hf : ∀ x ∈ l, ∀ u v, obj.step u x.op = (v, x.ans) →
      (∃ y, f x = some y ∧ obj'.step u y.op = (v, y.ans)) ∨ (f x = none ∧ v = u)) :
    obj'.Gives s (l.filterMap f) t := by
  induction h with
  | nil s => exact .nil s
  | @cons s t u x l hx _ ih =>
    have htail := ih fun z hz => hf z (List.mem_cons_of_mem _ hz)
    rcases hf x List.mem_cons_self s t hx with ⟨y, hy, hstep⟩ | ⟨hnone, rfl⟩
    · rw [List.filterMap_cons_some hy]
      exact .cons hstep htail
    · rw [List.filterMap_cons_none hnone]
      exact htail

/-- A relation that is single-valued is a partial function. -/
lemma exists_function {X Y : Type*} {P : X → Y → Prop} (h : ∀ x y y', P x y → P x y' → y = y') :
    ∃ f : X → Option Y, ∀ x y, f x = some y ↔ P x y := by
  classical
  have hex : ∀ x, ∃ o : Option Y, ∀ y, o = some y ↔ P x y := by
    intro x
    by_cases hx : ∃ y, P x y
    · obtain ⟨y, hy⟩ := hx
      refine ⟨some y, fun z => ⟨fun hz => ?_, fun hz => congrArg some (h x y z hy hz)⟩⟩
      exact Option.some.inj hz ▸ hy
    · refine ⟨none, fun y => ⟨fun hy => ?_, fun hy => (hx ⟨y, hy⟩).elim⟩⟩
      cases hy
  choose f hf using hex
  exact ⟨f, hf⟩

lemma View.linearized {l : List (Served K O A)} (h : View obj H l obj' H' R) (hl : Linearization obj H l) :
    Linearizable obj' H' := by
  obtain ⟨f, hf⟩ := exists_function h.single
  refine ⟨l.filterMap f, ?_, ?_, fun y hy => ?_, fun k op ans hinv hans => ?_⟩
  · obtain ⟨s, hs⟩ := hl.gives
    rw [h.init]
    refine ⟨s, hs.view fun x hx u v hstep => ?_⟩
    rcases h.serves x hx u v hstep with ⟨y, hy, hstep'⟩ | ⟨hnone, heq⟩
    · exact Or.inl ⟨y, (hf x y).mpr hy, hstep'⟩
    · refine Or.inr ⟨?_, heq⟩
      cases hfx : f x with
      | none => rfl
      | some y => exact (hnone y ((hf x y).mp hfx)).elim
  · refine List.pairwise_filterMap.mpr (hl.ordered.imp_of_mem fun hx hx' hfollows y hy y' hy' => ?_)
    exact h.follows _ hx _ hx' y y' ((hf _ y).mp hy) ((hf _ y').mp hy') hfollows
  · obtain ⟨x, hx, hxy⟩ := List.mem_filterMap.mp hy
    exact h.invoked x hx y ((hf x y).mp hxy)
  · obtain ⟨x, hx, hxy⟩ := h.answered k op ans hinv hans
    exact List.mem_filterMap.mpr ⟨x, hx, (hf x _).mpr hxy⟩

end DistributedStorage.Library.Linearizability
