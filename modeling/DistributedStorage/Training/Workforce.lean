import DistributedStorage.Training.Coordinator

/-! Gradient descent as the repository documents it, over a fixed list of workers, and the coordinator that
follows it. -/

namespace DistributedStorage.Training

open Library

variable {F : Type}

/-- The workers of a training: as many as the coordinator waits for, in the order in which they register,
and what each computes from the weights. -/
structure Workforce (c : Config F) where
  order : List String
  nodup : order.Nodup
  complete : order.length = c.numWorkers
  gradient : String → c.Weights → c.Weights × ℤ

namespace Workforce

variable {c : Config F} (W : Workforce c)

/-- What the worker puts into its heartbeat. -/
def report (wid : String) (w : c.Weights) : List F × ℤ :=
  (List.ofFn (W.gradient wid w).1, (W.gradient wid w).2)

/-- The assignments when the first `k` workers are registered. -/
def table (k : ℕ) : List (String × List String) :=
  (W.order.take k).zipIdx.map fun x => (x.1, sliceFrom c.numWorkers x.2 c.shards)

/-- The workers that own a shard. -/
def owners : List String :=
  ((W.table c.numWorkers).filter fun x => !x.2.isEmpty).map Prod.fst

lemma table_keys (k : ℕ) : (W.table k).map Prod.fst = W.order.take k := by
  simp [table, Function.comp_def]

lemma table_succ {k : ℕ} {wid : String} (h : W.order[k]? = some wid) :
    W.table (k + 1) = W.table k ++ [(wid, sliceFrom c.numWorkers k c.shards)] := by
  obtain ⟨hk, -⟩ := List.getElem?_eq_some_iff.mp h
  have hlen : (W.order.take k).length = k := List.length_take_of_le (Nat.le_of_lt hk)
  simp [table, List.take_add_one, h, List.zipIdx_append, hlen]

lemma owners_nodup : W.owners.Nodup := by
  have h : (W.table c.numWorkers).map Prod.fst = W.order.take c.numWorkers := W.table_keys _
  exact (h ▸ W.nodup.take).sublist (List.filter_sublist.map _)

lemma next_notMem {k : ℕ} {wid : String} (h : W.order[k]? = some wid) : wid ∉ W.order.take k := by
  have hnodup := W.nodup.take (i := k + 1)
  rw [List.take_add_one, h] at hnodup
  exact fun hmem => (List.disjoint_of_nodup_append hnodup) hmem (List.mem_singleton_self wid)

end Workforce

variable {c : Config F}

/-- Workers register in their order. -/
def Workforce.InOrder (W : Workforce c) (s : Coordinator c) (req : Heartbeat F) : Prop :=
  req.workerId ∈ s.slots.keys ∨ W.order[s.slots.size]? = some req.workerId

/-- A gradient for the current epoch comes from weights that were published for it. Nothing is said about
gradients for other epochs. -/
def Workforce.Honest (W : Workforce c) (published : List (ℕ × c.Weights)) (s : Coordinator c)
    (req : Heartbeat F) : Prop :=
  req.hasGradient = true → req.epoch = s.epoch →
    ∃ x ∈ published, x.1 = s.epoch ∧ (req.gradient, req.sampleCount) = W.report req.workerId x.2

instance [DecidableEq F] (W : Workforce c) (published : List (ℕ × c.Weights)) (s : Coordinator c)
    (req : Heartbeat F) : Decidable (W.Honest published s req) :=
  inferInstanceAs (Decidable (_ → _ → ∃ x ∈ published, _))

instance (W : Workforce c) (s : Coordinator c) (req : Heartbeat F) : Decidable (W.InOrder s req) :=
  inferInstanceAs (Decidable (_ ∨ _))

lemma foldl_accumulate [Add F] (l : List (c.Weights × ℤ)) (acc : c.Weights × ℤ) :
    (l.map fun r => (List.ofFn r.1, r.2)).foldl c.accumulate acc =
      (fun j => (l.map fun r => r.1 j).foldl (· + ·) (acc.1 j), acc.2 + (l.map Prod.snd).sum) := by
  induction l generalizing acc with
  | nil => simp
  | cons r l ih =>
    have hstep : c.accumulate acc (List.ofFn r.1, r.2) = (fun j => acc.1 j + r.1 j, acc.2 + r.2) := by
      simp [Config.accumulate]
    rw [List.map_cons, List.foldl_cons, hstep, ih]
    simp [Int.add_assoc]

section

variable [Zero F] [Add F] [Sub F] [Mul F] [Div F] [IntCast F]

/-- One step of gradient descent: the learning rate times the sum of the gradients over the number of
samples is taken off the weights. -/
def Config.descend (c : Config F) (w : c.Weights) (reports : List (c.Weights × ℤ)) : c.Weights :=
  let count := (reports.map Prod.snd).sum
  if 0 < count then
    fun j => w j - c.lr * ((reports.map fun r => r.1 j).foldl (· + ·) 0 / (count : F))
  else w

/-- On gradients of the right length the loop of the coordinator computes the step. -/
lemma aggregate_eq_descend (w : c.Weights) (l : List (c.Weights × ℤ)) :
    c.aggregate w (l.map fun r => (List.ofFn r.1, r.2)) = c.descend w l := by
  simp only [Config.aggregate, Config.descend, foldl_accumulate, Int.zero_add]

/-- The step in which every owner of a shard takes part once. -/
def Workforce.next (W : Workforce c) (w : c.Weights) : c.Weights :=
  c.descend w (W.owners.map fun wid => W.gradient wid w)

/-- The weights after `k` steps. -/
def Workforce.weights (W : Workforce c) (k : ℕ) : c.Weights :=
  W.next^[k] fun _ => 0

lemma Workforce.weights_succ (W : Workforce c) (k : ℕ) : W.weights (k + 1) = W.next (W.weights k) :=
  Function.iterate_succ_apply' ..

/-- The coordinator has registered the first workers, holds what they report for the current weights, and
has made as many steps as its epoch says. -/
structure Coordinator.Follows (s : Coordinator c) (W : Workforce c) : Prop where
  registered : s.slots.keys = W.order.take s.slots.size
  assigned : s.assignments.items = W.table s.slots.size
  reported : ∀ x ∈ s.epochContrib.items, x.2 = W.report x.1 s.weights
  trained : s.weights = W.weights s.epoch

namespace Coordinator

variable {s t : Coordinator c} {W : Workforce c} {req : Heartbeat F}

lemma new_follows : (new c).Follows W where
  registered := rfl
  assigned := rfl
  reported _ hx := by cases hx
  trained := rfl

/-- The state in which a new worker has got its slot and its shards. -/
def registered (s : Coordinator c) (wid : String) : Coordinator c :=
  { s with
    slots := s.slots.set wid s.slots.size
    assignments := s.assignments.set wid (sliceFrom c.numWorkers s.slots.size c.shards) }

lemma registered_follows (h : s.Follows W) {wid : String} (hnext : W.order[s.slots.size]? = some wid) :
    (s.registered wid).Follows W := by
  have hnew : wid ∉ s.slots.keys := by
    rw [h.registered]
    exact W.next_notMem hnext
  have habsent : wid ∉ s.assignments.keys := by
    rw [OrderedDict.keys, h.assigned, W.table_keys]
    exact W.next_notMem hnext
  have hsize : (s.registered wid).slots.size = s.slots.size + 1 := OrderedDict.set_size_of_notMem hnew
  refine ⟨?_, ?_, h.reported, h.trained⟩
  · have hkeys : (s.registered wid).slots.keys = s.slots.keys ++ [wid] := by
      simp only [registered, OrderedDict.keys, OrderedDict.set_items_of_notMem hnew, List.map_append,
        List.map_cons, List.map_nil]
    rw [hkeys, hsize, List.take_add_one, hnext, h.registered]
    rfl
  · rw [hsize, W.table_succ hnext, ← h.assigned]
    exact OrderedDict.set_items_of_notMem habsent

lemma register_spec (h : s.Follows W) (hin : W.InOrder s req) :
    ∃ t, s.register req.workerId = (t, some ()) ∧ t.Follows W ∧ t.weights = s.weights ∧
      t.epoch = s.epoch ∧ t.terminate = s.terminate ∧ s.slots.size ≤ t.slots.size := by
  obtain hold | hnew := (s.slots.get req.workerId).isSome.eq_false_or_eq_true
  · exact ⟨s, by simp [register, hold], h, rfl, rfl, rfl, le_rfl⟩
  · have hnotMem : req.workerId ∉ s.slots.keys := by
      rw [← OrderedDict.get_eq_none]
      simpa using hnew
    have hnext : W.order[s.slots.size]? = some req.workerId := hin.resolve_left hnotMem
    have hpos : c.numWorkers ≠ 0 := by
      obtain ⟨hlt, -⟩ := List.getElem?_eq_some_iff.mp hnext
      have hc := W.complete
      omega
    refine ⟨s.registered req.workerId, ?_, registered_follows h hnext, rfl, rfl, rfl, ?_⟩
    · simp [register, hnew, hpos, registered]
    · have hsize : (s.registered req.workerId).slots.size = s.slots.size + 1 :=
        OrderedDict.set_size_of_notMem hnotMem
      omega

lemma report_spec (h : s.Follows W) {published : List (ℕ × c.Weights)}
    (hpub : ∀ x ∈ published, x.2 = W.weights x.1) (hreq : W.Honest published s req) :
    (s.report req).Follows W := by
  by_cases hkeep : req.hasGradient ∧ req.epoch = s.epoch ∧ s.epochContrib.get req.workerId = none
  · obtain ⟨x, hx, hepoch, hval⟩ := hreq hkeep.1 hkeep.2.1
    have hw : x.2 = s.weights := by rw [hpub x hx, hepoch, h.trained]
    simp only [report, hkeep, and_self, if_true]
    refine ⟨h.registered, h.assigned, ?_, h.trained⟩
    intro y hy
    have hget : (s.epochContrib.set req.workerId (req.gradient, req.sampleCount)).get y.1 = some y.2 :=
      OrderedDict.get_eq_some.mpr hy
    rw [OrderedDict.get_set] at hget
    split_ifs at hget with hk
    · rw [← Option.some.inj hget, hval, hw, hk]
    · exact h.reported _ (OrderedDict.get_eq_some.mp hget)
  · rw [report, if_neg hkeep]
    exact h

lemma accept_spec (h : s.Follows W) (hin : W.InOrder s req) {published : List (ℕ × c.Weights)}
    (hpub : ∀ x ∈ published, x.2 = W.weights x.1) (hreq : W.Honest published s req) :
    ∃ t, s.register req.workerId = (t, some ()) ∧ (t.report req).Follows W ∧
      (t.report req).weights = s.weights ∧ (t.report req).epoch = s.epoch ∧
      (t.report req).terminate = s.terminate ∧ s.slots.size ≤ (t.report req).slots.size := by
  obtain ⟨t, ht, hfollows, hweights, hepoch, hterminate, hsize⟩ := register_spec h hin
  have hhonest : W.Honest published t req := by
    intro hgrad htag
    rw [hepoch] at htag ⊢
    exact hreq hgrad htag
  obtain ⟨hw, he, hterm, hslots⟩ := report_frame t req
  exact ⟨t, ht, report_spec hfollows hpub hhonest, hw.trans hweights, he.trans hepoch,
    hterm.trans hterminate, hslots ▸ hsize⟩

lemma Follows.size_le (h : s.Follows W) : s.slots.size ≤ c.numWorkers := by
  have hlen : s.slots.size = (W.order.take s.slots.size).length := by
    rw [← h.registered, OrderedDict.keys_length]
  rw [List.length_take, W.complete] at hlen
  omega

lemma ready_size (h : s.Follows W) (hready : s.ready = true) : s.slots.size = c.numWorkers := by
  simp only [ready, Bool.and_eq_true, decide_eq_true_eq] at hready
  exact Nat.le_antisymm h.size_le hready.1.1

/-- A coordinator that is ready has one gradient of each owner of a shard, all for the current weights. -/
lemma used_eq (h : s.Follows W) (hready : s.ready = true) :
    s.used = W.owners.map fun wid => (wid, W.report wid s.weights) := by
  have hfull : s.slots.size = c.numWorkers := ready_size h hready
  simp only [ready, Bool.and_eq_true, decide_eq_true_eq, List.all_eq_true] at hready
  obtain ⟨-, hall⟩ := hready
  have howners : s.contributors = W.owners := by
    rw [contributors, h.assigned, hfull, Workforce.owners]
  have hget : ∀ wid ∈ s.contributors, s.epochContrib.get wid = some (W.report wid s.weights) := by
    intro wid hwid
    obtain ⟨r, hr⟩ := Option.isSome_iff_exists.mp (hall wid hwid)
    exact hr.trans (congrArg some (h.reported _ (OrderedDict.get_eq_some.mp hr)))
  rw [used, ← howners, ← List.filterMap_eq_map']
  apply List.filterMap_congr
  intro wid hwid
  rw [hget wid hwid]
  rfl

lemma applyGradients_weights (h : s.Follows W) (hready : s.ready = true) :
    s.applyGradients.weights = W.weights (s.epoch + 1) := by
  have hreports : s.used.map Prod.snd =
      (W.owners.map fun wid => W.gradient wid s.weights).map fun r => (List.ofFn r.1, r.2) := by
    rw [used_eq h hready, List.map_map, List.map_map]
    rfl
  calc s.applyGradients.weights = c.aggregate s.weights (s.used.map Prod.snd) := rfl
    _ = W.next s.weights := by rw [hreports, aggregate_eq_descend, Workforce.next]
    _ = W.weights (s.epoch + 1) := by rw [h.trained, W.weights_succ]

/-- After the assignments of `_maybe_step` the coordinator is at the beginning of the next epoch. -/
lemma cleared_follows (h : s.Follows W) (hready : s.ready = true) :
    s.applyGradients.advanceEpoch.clearContrib.Follows W where
  registered := h.registered
  assigned := h.assigned
  reported _ hx := by cases hx
  trained := applyGradients_weights h hready

lemma finish_follows (h : s.Follows W) : s.finish.Follows W := by
  simp only [finish]
  split
  · exact ⟨h.registered, h.assigned, h.reported, h.trained⟩
  · exact h

end Coordinator

end

end DistributedStorage.Training
