import DistributedStorage.Library.LogisticLoss
import DistributedStorage.Training.Fleet

/-! What the training computes in exact arithmetic: gradient descent on the mean cross entropy of all rows,
however they are spread over shards and workers. -/

set_option linter.unusedSectionVars false

namespace DistributedStorage.Training

open Library Library.Runs

lemma slices_perm {n : ℕ} (hn : 1 ≤ n) {l : List String} (hl : l.Nodup) :
    ((List.range n).flatMap fun k => sliceFrom n k l).Perm l := by
  have hnodup : ((List.range n).flatMap fun k => sliceFrom n k l).Nodup := by
    refine List.nodup_flatMap.mpr ⟨fun k _ => hl.sublist (sliceFrom_sublist n k l), ?_⟩
    refine List.Nodup.pairwise_of_forall_ne List.nodup_range fun a ha b hb hne x hxa hxb => hne ?_
    exact start_unique hl (Or.inl ⟨List.mem_range.mp ha, List.mem_range.mp hb⟩)
      ((mem_sliceFrom hn).mp hxa) ((mem_sliceFrom hn).mp hxb)
  refine (List.perm_ext_iff_of_nodup hnodup hl).mpr fun x => ?_
  rw [List.mem_flatMap]
  constructor
  · rintro ⟨k, -, hx⟩
    exact (sliceFrom_sublist n k l).subset hx
  · intro hx
    obtain ⟨i, hi⟩ := List.mem_iff_getElem?.mp hx
    refine ⟨i % n, List.mem_range.mpr (Nat.mod_lt i hn), (mem_sliceFrom hn).mpr ⟨i / n, ?_⟩⟩
    rwa [Nat.mod_add_div']

section Field

variable {F : Type} [Field F] [LinearOrder F] {env : Environment F} {c : Config F}

/-- The weighted sum of a row's features. -/
def margin (w : List F) (row : Row F) : F := (List.zipWith (· * ·) w row.1).sum

/-- What a row adds to entry `j` of the gradient. -/
def Environment.pull (env : Environment F) (w : List F) (j : ℕ) (row : Row F) : F :=
  (env.sigmoid (margin w row) - (row.2 : F)) * row.1.getD j 0

/-- The rows of all shards. -/
def Config.rows (c : Config F) (env : Environment F) : List (Row F) := c.shards.flatMap env.rows

lemma addRows_getD {w grad out : List F} {data : List (Row F)} (hlen : grad.length = w.length)
    (h : env.addRows w grad data = some out) {j : ℕ} (hj : j < w.length) :
    out.getD j 0 = grad.getD j 0 + (data.map (env.pull w j)).sum := by
  induction data generalizing grad with
  | nil =>
    cases h
    simp
  | cons row data ih =>
    obtain ⟨x, y⟩ := row
    simp only [Environment.addRows] at h
    split_ifs at h with hshort
    have hx : w.length ≤ x.length := not_lt.mp hshort
    rw [ih (by rw [List.length_zipWith, hlen, Nat.min_eq_left hx]) h, List.map_cons, List.sum_cons,
      ← add_assoc]
    congr 1
    rw [List.getD_eq_getElem _ _ (by rw [List.length_zipWith]; omega), List.getElem_zipWith,
      List.getD_eq_getElem grad _ (by omega), Environment.pull, margin,
      List.getD_eq_getElem x _ (by omega), List.sum_eq_foldl]

lemma addRows_isSome (env : Environment F) {w : List F} (grad : List F) {data : List (Row F)}
    (hrows : ∀ row ∈ data, w.length ≤ row.1.length) : (env.addRows w grad data).isSome = true := by
  induction data generalizing grad with
  | nil => rfl
  | cons row data ih =>
    obtain ⟨x, y⟩ := row
    simp only [Environment.addRows]
    rw [if_neg (not_lt.mpr (hrows _ List.mem_cons_self))]
    exact ih _ fun row hrow => hrows row (List.mem_cons_of_mem _ hrow)

/-- Every row has an entry for each weight. -/
def Config.WellFormed (c : Config F) (env : Environment F) : Prop :=
  ∀ row ∈ c.rows env, c.dim ≤ row.1.length

lemma slotRows_subset (k : ℕ) : ∀ row ∈ c.slotRows env k, row ∈ c.rows env := by
  intro row hrow
  obtain ⟨shard, hshard, hin⟩ := List.mem_flatMap.mp hrow
  exact List.mem_flatMap.mpr ⟨shard, (sliceFrom_sublist _ _ _).subset hshard, hin⟩

lemma slotGradient_eq (hwf : c.WellFormed env) (w : c.Weights) (k : ℕ) (j : Fin c.dim) :
    (c.slotGradient env w k).1 j = ((c.slotRows env k).map (env.pull (List.ofFn w) j)).sum := by
  obtain ⟨out, hout⟩ := Option.isSome_iff_exists.mp (addRows_isSome env
    (List.replicate (List.ofFn w).length 0)
    fun row hrow => (List.length_ofFn ▸ hwf row (slotRows_subset k row hrow) : (List.ofFn w).length ≤ _))
  have hj : (j : ℕ) < (List.ofFn w).length := by rw [List.length_ofFn]; exact j.isLt
  have hsum := addRows_getD (List.length_replicate ..) hout hj
  simp only [Config.slotGradient, Environment.gradient, hout, Option.getD_some, hsum]
  rw [List.getD_replicate _ hj, zero_add]

/-- The rows of the slots that own a shard are the rows of all shards. -/
lemma owning_rows (env : Environment F) (hn : 1 ≤ c.numWorkers) (hshards : c.shards.Nodup) :
    (c.owningSlots.flatMap (c.slotRows env)).Perm (c.rows env) := by
  have hall : c.owningSlots.flatMap (c.slotRows env) =
      (List.range c.numWorkers).flatMap (c.slotRows env) := by
    rw [Config.owningSlots]
    induction List.range c.numWorkers with
    | nil => rfl
    | cons k l ih =>
      by_cases hk : c.slice k = []
      · simp [hk, ih, Config.slotRows]
      · simp [hk, ih]
  rw [hall, Config.rows]
  have hflat : (List.range c.numWorkers).flatMap (c.slotRows env) =
      ((List.range c.numWorkers).flatMap fun k => sliceFrom c.numWorkers k c.shards).flatMap env.rows := by
    rw [List.flatMap_assoc]
    rfl
  rw [hflat]
  exact (slices_perm hn hshards).flatMap_right env.rows

/-- The sum over the slots is the sum over all rows. -/
lemma sum_slots (hn : 1 ≤ c.numWorkers) (hshards : c.shards.Nodup) (f : Row F → F) :
    (c.owningSlots.map fun k => ((c.slotRows env k).map f).sum).sum = ((c.rows env).map f).sum := by
  rw [← ((owning_rows env hn hshards).map f).sum_eq, List.map_flatMap]
  induction c.owningSlots with
  | nil => rfl
  | cons k l ih => rw [List.map_cons, List.sum_cons, ih, List.flatMap_cons, List.sum_append]

lemma length_slots (hn : 1 ≤ c.numWorkers) (hshards : c.shards.Nodup) :
    (c.owningSlots.map fun k => ((c.slotRows env k).length : ℤ)).sum = (c.rows env).length := by
  rw [← (owning_rows env hn hshards).length_eq, List.length_flatMap]
  induction c.owningSlots with
  | nil => rfl
  | cons k l ih => simp [ih]

/-- One epoch takes the learning rate times the mean over all rows off the weights. -/
lemma train_eq (hn : 1 ≤ c.numWorkers) (hshards : c.shards.Nodup) (hwf : c.WellFormed env)
    (w : c.Weights) (j : Fin c.dim) : c.train env w j = w j -
      c.lr * (((c.rows env).map (env.pull (List.ofFn w) j)).sum / ((c.rows env).length : F)) := by
  have hcount : ((c.owningSlots.map (c.slotGradient env w)).map Prod.snd).sum = (c.rows env).length := by
    rw [List.map_map, ← length_slots hn hshards]
    rfl
  simp only [Config.train, Config.descend, hcount]
  by_cases hpos : (0 : ℤ) < (c.rows env).length
  · rw [if_pos hpos, ← List.sum_eq_foldl, List.map_map]
    have hsum : (c.owningSlots.map ((fun r : c.Weights × ℤ => r.1 j) ∘ c.slotGradient env w)).sum =
        ((c.rows env).map (env.pull (List.ofFn w) j)).sum := by
      rw [← sum_slots hn hshards]
      congr 1
      exact List.map_congr_left fun k _ => slotGradient_eq hwf w k j
    rw [hsum, Int.cast_natCast]
  · have hnil : c.rows env = [] := by
      rw [← List.length_eq_zero_iff]
      omega
    simp [hnil]

end Field

section Real

variable {c : Config ℝ} {env : Environment ℝ}

/-- The rows as samples of a model with `dim` weights. -/
noncomputable def Config.samples (c : Config ℝ) (env : Environment ℝ) : List ((Fin c.dim → ℝ) × ℝ) :=
  (c.rows env).map fun row => (fun j => row.1.getD j 0, (row.2 : ℝ))

lemma margin_eq {d : ℕ} (w : Fin d → ℝ) {row : Row ℝ} (hrow : d ≤ row.1.length) :
    margin (List.ofFn w) row = score w fun j => row.1.getD j 0 := by
  have hlist : List.zipWith (· * ·) (List.ofFn w) row.1 =
      List.ofFn fun j : Fin d => w j * row.1.getD j 0 := by
    refine List.ext_getElem ?_ fun i hi hi' => ?_
    · rw [List.length_zipWith, List.length_ofFn, List.length_ofFn, Nat.min_eq_left hrow]
    · rw [List.getElem_zipWith, List.getElem_ofFn, List.getElem_ofFn, List.getD_eq_getElem]
  rw [margin, hlist, List.sum_ofFn, score]

/-- Within the bounds the worker's sigmoid is the logistic function. -/
lemma sigmoid_eq (hexp : env.exp = Real.exp) {z : ℝ} (hz : |z| ≤ 700) : env.sigmoid z = Real.sigmoid z := by
  obtain ⟨hlow, hhigh⟩ := abs_le.mp hz
  rw [Environment.sigmoid, if_neg, if_neg, hexp, one_div, Real.sigmoid_def]
  · push_cast
    exact not_lt.mpr hhigh
  · push_cast
    exact not_lt.mpr hlow

/-- All scores are within the bounds of the worker's sigmoid. -/
def Config.Bounded (c : Config ℝ) (env : Environment ℝ) (w : Fin c.dim → ℝ) : Prop :=
  ∀ s ∈ c.samples env, |score w s.1| ≤ 700

/-- One epoch is one step of gradient descent on the mean loss over all rows. -/
lemma train_descends (hn : 1 ≤ c.numWorkers) (hshards : c.shards.Nodup) (hexp : env.exp = Real.exp)
    (hwf : c.WellFormed env) {w : c.Weights} (hw : c.Bounded env w) :
    c.train env w = descentStep c.lr (meanLoss (c.samples env)) w := by
  funext j
  rw [train_eq hn hshards hwf, descentStep_meanLoss, Config.samples, List.length_map, List.map_map]
  congr 4
  refine List.map_congr_left fun row hrow => ?_
  have hlen := hwf row hrow
  have hbound := hw _ (List.mem_map_of_mem hrow)
  rw [Function.comp_apply, Environment.pull, margin_eq w hlen, sigmoid_eq hexp hbound]

namespace Fleet

variable {x : Fleet c}

/-- In exact arithmetic the deployed trainer is gradient descent on the mean cross entropy of the rows of
all shards: whatever is late, lost, stopped or started again, and however many workers share the shards. -/
theorem gradient_descent (hn : 1 ≤ c.numWorkers) (hshards : c.shards.Nodup) (hexp : env.exp = Real.exp)
    (hwf : c.WellFormed env) (h : Run (step env) Reads (init c) x)
    (hfew : x.coordinator.slots.size ≤ c.numWorkers)
    (hbounded : ∀ e < x.coordinator.epoch,
      c.Bounded env ((descentStep c.lr (meanLoss (c.samples env)))^[e] fun _ => 0)) :
    x.coordinator.weights =
      (descentStep c.lr (meanLoss (c.samples env)))^[x.coordinator.epoch] fun _ => 0 := by
  have htrained : ∀ e ≤ x.coordinator.epoch,
      c.trained env e = (descentStep c.lr (meanLoss (c.samples env)))^[e] fun _ => 0 := by
    intro e
    induction e with
    | zero => exact fun _ => rfl
    | succ e ih =>
      intro he
      rw [Config.trained_succ, ih (Nat.le_of_succ_le he), Function.iterate_succ_apply']
      exact train_descends hn hshards hexp hwf (hbounded e he)
  rw [(sound hn hshards h hfew).trained.weights]
  exact htrained _ le_rfl

/-- One shard with a row of no features and the label 1. -/
noncomputable def biasOnly : Config ℝ := ⟨1, 1, 1, ["s"], 1, false⟩

noncomputable def biasRow : Environment ℝ := ⟨fun _ => [([], 1)], Real.exp⟩

theorem gradient_descent_bias : ∃ x : Fleet biasOnly, x.coordinator.epoch = 1 ∧
    x.coordinator.weights = (descentStep 1 (meanLoss (biasOnly.samples biasRow)))^[1] fun _ => 0 := by
  obtain ⟨x, hx, hepoch, hsize⟩ := Run.exists_of_execute
    (guarded (step biasRow) Reads) (.init biasOnly)
    [.start 1 "1", .send 1, .handle 0, .receive 1 [], .send 1, .handle 1]
    (fun x => x.coordinator.epoch = 1 ∧ x.coordinator.slots.size = 1) (by decide +kernel)
  have hwf : biasOnly.WellFormed biasRow := by
    simp [Config.WellFormed, Config.rows, Environment.rows, biasOnly, biasRow]
  have hdesc := gradient_descent (by decide) (by decide) rfl hwf hx.of_guarded hsize.le
    (by simp [hepoch, Config.Bounded, score])
  exact ⟨x, hepoch, hepoch ▸ hdesc⟩

end Fleet

end Real

end DistributedStorage.Training
