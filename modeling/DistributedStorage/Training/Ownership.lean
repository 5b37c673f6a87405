import DistributedStorage.Training.Rounds

/-! Which worker owns which shard. The slots are numbers of registrations, and nothing bounds them by the
number of workers that the strides of the assignments are made for. -/

namespace DistributedStorage.Training

open Library Library.Runs

lemma mem_sliceFrom {n : ℕ} (hn : 0 < n) {k : ℕ} {l : List String} {x : String} :
    x ∈ sliceFrom n k l ↔ ∃ q, l[k + q * n]? = some x := by
  induction l generalizing k with
  | nil => simp [sliceFrom]
  | cons a l ih =>
    cases k with
    | zero =>
      rw [sliceFrom, List.mem_cons, ih]
      constructor
      · rintro (rfl | ⟨q, hq⟩)
        · exact ⟨0, by simp⟩
        · refine ⟨q + 1, ?_⟩
          rwa [show 0 + (q + 1) * n = n - 1 + q * n + 1 by rw [Nat.succ_mul]; omega,
            List.getElem?_cons_succ]
      · rintro ⟨q, hq⟩
        cases q with
        | zero =>
          left
          simpa using hq.symm
        | succ q =>
          right
          refine ⟨q, ?_⟩
          rwa [show 0 + (q + 1) * n = n - 1 + q * n + 1 by rw [Nat.succ_mul]; omega,
            List.getElem?_cons_succ] at hq
    | succ k =>
      rw [sliceFrom, ih]
      refine exists_congr fun q => ?_
      rw [show k + 1 + q * n = k + q * n + 1 by omega, List.getElem?_cons_succ]

lemma sliceFrom_sublist (n k : ℕ) (l : List String) : (sliceFrom n k l).Sublist l := by
  induction l generalizing k with
  | nil => exact .slnil
  | cons a l ih =>
    cases k with
    | zero => exact (ih _).cons_cons a
    | succ k => exact (ih _).cons a

/-- Two slices share an element only if they start at the same place, as long as they start within the
first stride or the list ends there. -/
lemma start_unique {n : ℕ} {a b : ℕ} {l : List String} {x : String} (hl : l.Nodup)
    (hab : (a < n ∧ b < n) ∨ l.length ≤ n) (ha : ∃ q, l[a + q * n]? = some x)
    (hb : ∃ q, l[b + q * n]? = some x) : a = b := by
  obtain ⟨q, hq⟩ := ha
  obtain ⟨r, hr⟩ := hb
  have hlt := (List.getElem?_eq_some_iff.mp hq).1
  have heq : a + q * n = b + r * n := (List.getElem?_inj hlt hl).mp (hq.trans hr.symm)
  rcases hab with ⟨hlta, hltb⟩ | hlen
  · have hmod := congrArg (· % n) heq
    simpa only [Nat.add_mul_mod_self_right, Nat.mod_eq_of_lt hlta, Nat.mod_eq_of_lt hltb] using hmod
  · have hzero {m : ℕ} (hm : m * n < n) : m = 0 := by
      by_contra hne
      have hle := Nat.le_mul_of_pos_left n (Nat.pos_of_ne_zero hne)
      omega
    have hq0 : q = 0 := hzero (by omega)
    have hr0 : r = 0 := hzero (by omega)
    simpa only [hq0, hr0, Nat.zero_mul, Nat.add_zero] using heq

variable {F : Type} {c : Config F}

namespace Coordinator

/-- The worker of each slot has the slice that starts at the slot. -/
def Sliced (s : Coordinator c) : Prop :=
  s.assignments.items = s.slots.keys.zipIdx.map fun x => (x.1, sliceFrom c.numWorkers x.2 c.shards)

/-- No shard is assigned to two workers. -/
def Unshared (s : Coordinator c) : Prop :=
  ∀ w w' l l' shard, s.assignments.get w = some l → s.assignments.get w' = some l' →
    shard ∈ l → shard ∈ l' → w = w'

variable {s t : Coordinator c}

lemma Sliced.get_iff (h : s.Sliced) {w : String} {l : List String} : s.assignments.get w = some l ↔
    ∃ k, s.slots.keys[k]? = some w ∧ l = sliceFrom c.numWorkers k c.shards := by
  rw [OrderedDict.get_eq_some, h, List.mem_map]
  constructor
  · rintro ⟨⟨v, k⟩, hmem, heq⟩
    cases heq
    exact ⟨k, List.mk_mem_zipIdx_iff_getElem?.mp hmem, rfl⟩
  · rintro ⟨k, hk, rfl⟩
    exact ⟨(w, k), List.mk_mem_zipIdx_iff_getElem?.mpr hk, rfl⟩

lemma Sliced.unshared_iff (h : s.Sliced) (hn : 1 ≤ c.numWorkers) (hshards : c.shards.Nodup) :
    s.Unshared ↔ s.slots.size ≤ c.numWorkers ∨ c.shards.length ≤ c.numWorkers := by
  have hkeys : s.slots.keys.Nodup := s.slots.nodup
  constructor
  · intro hun
    by_contra! hlong
    -- the first slot and the first one after the workers both start a slice with the shard at `numWorkers`
    obtain ⟨w, hw⟩ : ∃ w, s.slots.keys[0]? = some w :=
      ⟨_, List.getElem?_eq_getElem (by rw [OrderedDict.keys_length]; omega)⟩
    obtain ⟨w', hw'⟩ : ∃ w', s.slots.keys[c.numWorkers]? = some w' :=
      ⟨_, List.getElem?_eq_getElem (by rw [OrderedDict.keys_length]; omega)⟩
    obtain ⟨shard, hshard⟩ : ∃ shard, c.shards[c.numWorkers]? = some shard :=
      ⟨_, List.getElem?_eq_getElem (by omega)⟩
    have hsame : w = w' := by
      refine hun w w' _ _ shard (h.get_iff.mpr ⟨0, hw, rfl⟩) (h.get_iff.mpr ⟨_, hw', rfl⟩) ?_ ?_
      · exact (mem_sliceFrom hn).mpr ⟨1, by simpa using hshard⟩
      · exact (mem_sliceFrom hn).mpr ⟨0, by simpa using hshard⟩
    have hzero : 0 = c.numWorkers := by
      refine (List.getElem?_inj ?_ hkeys).mp (hw.trans (hsame ▸ hw'.symm))
      rw [OrderedDict.keys_length]
      omega
    omega
  · intro hshort w w' l l' shard hl hl' hmem hmem'
    obtain ⟨a, ha, rfl⟩ := h.get_iff.mp hl
    obtain ⟨b, hb, rfl⟩ := h.get_iff.mp hl'
    have hlta := (List.getElem?_eq_some_iff.mp ha).1
    have hltb := (List.getElem?_eq_some_iff.mp hb).1
    rw [OrderedDict.keys_length] at hlta hltb
    have hab : a = b := by
      refine start_unique hshards ?_ ((mem_sliceFrom hn).mp hmem) ((mem_sliceFrom hn).mp hmem')
      exact hshort.imp_left fun hle => ⟨hlta.trans_le hle, hltb.trans_le hle⟩
    subst hab
    exact Option.some.inj (ha.symm.trans hb)

/-- With as many slots as workers there is a slice for every place. -/
lemma Sliced.covers (h : s.Sliced) (hn : 1 ≤ c.numWorkers) (hfull : c.numWorkers ≤ s.slots.size)
    {shard : String} (hmem : shard ∈ c.shards) :
    ∃ w l, s.assignments.get w = some l ∧ shard ∈ l := by
  obtain ⟨i, hi⟩ := List.mem_iff_getElem?.mp hmem
  have hlt : i % c.numWorkers < s.slots.keys.length := by
    rw [OrderedDict.keys_length]
    exact (Nat.mod_lt i hn).trans_le hfull
  refine ⟨s.slots.keys[i % c.numWorkers], _, h.get_iff.mpr ⟨_, List.getElem?_eq_getElem hlt, rfl⟩, ?_⟩
  refine (mem_sliceFrom hn).mpr ⟨i / c.numWorkers, ?_⟩
  rwa [Nat.mod_add_div']

/-- What the assignments give out, all together, is the list of the shards. -/
lemma Sliced.perm_iff (h : s.Sliced) (hn : 1 ≤ c.numWorkers) (hshards : c.shards.Nodup)
    (hfull : c.numWorkers ≤ s.slots.size) :
    (s.assignments.items.flatMap Prod.snd).Perm c.shards ↔
      s.slots.size ≤ c.numWorkers ∨ c.shards.length ≤ c.numWorkers := by
  rw [← h.unshared_iff hn hshards]
  constructor
  · intro hperm w w' l l' shard hl hl' hmem hmem'
    have hnodup := (List.nodup_flatMap.mp (hperm.nodup_iff.mpr hshards)).2
    by_contra hne
    have hsymm : Std.Symm (Function.onFun List.Disjoint (Prod.snd : String × List String → List String)) :=
      ⟨fun _ _ hd => hd.symm⟩
    have hdisj := hnodup.forall (OrderedDict.get_eq_some.mp hl) (OrderedDict.get_eq_some.mp hl')
      fun heq => hne (congrArg Prod.fst heq)
    exact hdisj hmem hmem'
  · intro hun
    have hslice : ∀ x ∈ s.assignments.items, x.2.Sublist c.shards := by
      intro x hx
      obtain ⟨k, -, hk⟩ := h.get_iff.mp (OrderedDict.get_eq_some.mpr hx)
      rw [hk]
      exact sliceFrom_sublist _ _ _
    have hnodup : (s.assignments.items.flatMap Prod.snd).Nodup := by
      refine List.nodup_flatMap.mpr ⟨fun x hx => hshards.sublist (hslice x hx), ?_⟩
      refine List.Nodup.pairwise_of_forall_ne (.of_map _ s.assignments.nodup) fun x hx y hy hne => ?_
      intro shard hmem hmem'
      refine hne ?_
      have hget := OrderedDict.get_eq_some.mpr hx
      have hkey := hun x.1 y.1 x.2 y.2 shard hget (OrderedDict.get_eq_some.mpr hy) hmem hmem'
      rw [hkey, OrderedDict.get_eq_some.mpr hy] at hget
      exact Prod.ext hkey (Option.some.inj hget).symm
    refine (List.perm_ext_iff_of_nodup hnodup hshards).mpr fun shard => ?_
    rw [List.mem_flatMap]
    constructor
    · rintro ⟨x, hx, hmem⟩
      exact (hslice x hx).subset hmem
    · intro hmem
      obtain ⟨w, l, hget, hin⟩ := h.covers hn hfull hmem
      exact ⟨(w, l), OrderedDict.get_eq_some.mp hget, hin⟩

lemma Sliced.of_eq (h : s.Sliced) (hslots : t.slots = s.slots) (hass : t.assignments = s.assignments) :
    t.Sliced := by
  rw [Sliced, hass, hslots]
  exact h

lemma report_assignments (s : Coordinator c) (req : Heartbeat F) :
    (s.report req).assignments = s.assignments := by
  simp only [report]
  split_ifs <;> rfl

lemma Sliced.register (h : s.Sliced) (hn : 1 ≤ c.numWorkers) (wid : String) :
    ∃ t, s.register wid = (t, some ()) ∧ t.Sliced := by
  by_cases hold : (s.slots.get wid).isSome = true
  · exact ⟨s, if_pos hold, h⟩
  · have hnew : wid ∉ s.slots.keys := by
      rw [← OrderedDict.get_eq_none]
      simpa using hold
    have habsent : wid ∉ s.assignments.keys := by
      rw [OrderedDict.keys, h, List.map_map]
      exact fun hmem => hnew (by simpa [Function.comp_def] using hmem)
    refine ⟨s.registered wid, ?_, ?_⟩
    · have hpos : c.numWorkers ≠ 0 := by omega
      simp [Coordinator.register, hold, hpos, registered]
    · have hkeys : (s.registered wid).slots.keys = s.slots.keys ++ [wid] := by
        simp only [registered, OrderedDict.keys, OrderedDict.set_items_of_notMem hnew, List.map_append,
          List.map_cons, List.map_nil]
      rw [Sliced, hkeys, List.zipIdx_append, List.map_append, ← h]
      simpa [OrderedDict.keys_length, registered] using OrderedDict.set_items_of_notMem habsent

/-- The workers that a step of a ready coordinator uses own all there is in the assignments. -/
lemma used_assignments (h : s.ready = true) :
    (s.used.flatMap fun u => (s.assignments.get u.1).getD []) = s.assignments.items.flatMap Prod.snd := by
  simp only [ready, Bool.and_eq_true, decide_eq_true_eq, List.all_eq_true] at h
  have hkeys : s.used.map Prod.fst = s.contributors := by
    rw [used, List.map_filterMap]
    refine (List.filterMap_congr fun w hw => ?_).trans List.filterMap_some
    obtain ⟨r, hr⟩ := Option.isSome_iff_exists.mp (h.2 w hw)
    rw [hr]
    rfl
  have hitems : ∀ l : List (String × List String), (∀ x ∈ l, x ∈ s.assignments.items) →
      ((l.filter fun x => !x.2.isEmpty).map Prod.fst).flatMap (fun w => (s.assignments.get w).getD []) =
        l.flatMap Prod.snd := by
    intro l hl
    induction l with
    | nil => rfl
    | cons x l ih =>
      have hx : s.assignments.get x.1 = some x.2 := OrderedDict.get_eq_some.mpr (hl x List.mem_cons_self)
      have hrest := ih fun y hy => hl y (List.mem_cons_of_mem x hy)
      by_cases he : x.2 = []
      · simpa [List.filter_cons, he] using hrest
      · simpa [List.filter_cons, he, hx] using hrest
  calc (s.used.flatMap fun u => (s.assignments.get u.1).getD [])
      = (s.used.map Prod.fst).flatMap fun w => (s.assignments.get w).getD [] := by
        rw [List.flatMap_map]
    _ = s.assignments.items.flatMap Prod.snd := by
        rw [hkeys, contributors]
        exact hitems _ fun _ hx => hx

section

variable [Zero F] [Add F] [Sub F] [Mul F] [Div F] [IntCast F]

lemma maybeStep_frame (s : Coordinator c) :
    s.maybeStep.slots = s.slots ∧ s.maybeStep.assignments = s.assignments := by
  simp only [maybeStep, finish]
  split_ifs <;> exact ⟨rfl, rfl⟩

/-- What a heartbeat does to the assignments, and what a step it sets off uses. -/
lemma Sliced.heartbeat (h : s.Sliced) (hn : 1 ≤ c.numWorkers) (req : Heartbeat F) :
    (s.handleHeartbeat req).1.Sliced ∧ ∀ r, s.round req = some r →
      c.numWorkers ≤ (s.handleHeartbeat req).1.slots.size ∧
      (r.used.flatMap fun u => ((s.handleHeartbeat req).1.assignments.get u.1).getD []) =
        (s.handleHeartbeat req).1.assignments.items.flatMap Prod.snd := by
  by_cases hterm : s.terminate = true
  · simp only [handleHeartbeat, round, if_pos hterm]
    exact ⟨h, fun r hr => by cases hr⟩
  · obtain ⟨t, ht, hsl⟩ := h.register hn req.workerId
    simp only [handleHeartbeat, round, if_neg hterm, ht]
    obtain ⟨hslots, hass⟩ := maybeStep_frame (t.report req)
    have hreport : (t.report req).Sliced :=
      hsl.of_eq (report_frame t req).2.2.2 (report_assignments t req)
    refine ⟨hreport.of_eq hslots hass, fun r hr => ?_⟩
    split_ifs at hr with hready
    cases hr
    rw [hslots, hass]
    refine ⟨?_, used_assignments hready⟩
    simp only [ready, Bool.and_eq_true, decide_eq_true_eq] at hready
    exact hready.1.1

end

end Coordinator

section

variable [Zero F] [Add F] [Sub F] [Mul F] [Div F] [IntCast F]

namespace Session

/-- A coordinator that has just been started, from what `restore` finds or without. -/
def start (c : Config F) (raw : Option (c.Weights × ℕ)) : Session c := ⟨(Coordinator.new c).restore raw, [], []⟩

lemma sliced (hn : 1 ≤ c.numWorkers) {raw : Option (c.Weights × ℕ)} {x : Session c}
    (h : Run step Free (start c raw) x) : x.coordinator.Sliced := by
  refine Run.invariant (I := fun x : Session c => x.coordinator.Sliced) ?_ h ?_
  · intro x req y hx _ hstep
    obtain rfl := Option.some.inj hstep
    exact (hx.heartbeat hn req).1
  · cases raw <;> rfl

/-- Whatever heartbeats a coordinator has had, each shard is with one worker at most if and only if no more
workers have registered than it waits for, or there are no more shards than these; each shard is with a
worker once all have registered; and a step counts each row of the shards once if and only if the first
holds. -/
theorem one_owner_iff (hn : 1 ≤ c.numWorkers) (hshards : c.shards.Nodup) {raw : Option (c.Weights × ℕ)}
    {x : Session c} (h : Run step Free (start c raw) x) :
    ((∀ w w' l l' shard, x.coordinator.assignments.get w = some l →
        x.coordinator.assignments.get w' = some l' → shard ∈ l → shard ∈ l' → w = w') ↔
      x.coordinator.slots.size ≤ c.numWorkers ∨ c.shards.length ≤ c.numWorkers) ∧
    (c.numWorkers ≤ x.coordinator.slots.size → ∀ shard ∈ c.shards,
      ∃ w l, x.coordinator.assignments.get w = some l ∧ shard ∈ l) ∧
    ∀ req y r, x.step req = some y → x.coordinator.round req = some r →
      ((∀ rows : String → List String,
        ((r.used.flatMap fun u => (y.coordinator.assignments.get u.1).getD []).flatMap rows).Perm
          (c.shards.flatMap rows)) ↔
        y.coordinator.slots.size ≤ c.numWorkers ∨ c.shards.length ≤ c.numWorkers) := by
  have hx := sliced hn h
  refine ⟨hx.unshared_iff hn hshards, fun hfull shard hmem => hx.covers hn hfull hmem, ?_⟩
  intro req y r hstep hround
  obtain rfl := Option.some.inj hstep
  obtain ⟨hsl, hused⟩ := hx.heartbeat hn req
  obtain ⟨hfull, heq⟩ := hused r hround
  rw [← hsl.perm_iff hn hshards hfull, heq]
  constructor
  · intro hrows
    simpa using hrows fun shard => [shard]
  · exact fun hperm rows => hperm.flatMap_right rows

end Session

end

def threeShards : Config ℤ := ⟨2, 1, 2, ["shard_0.csv", "shard_1.csv", "shard_2.csv"], 1, false⟩

/-- Two workers register, the second is restarted under a new id, and the first two ids report. -/
def restartedWorker : List (Heartbeat ℤ) :=
  [idleBeat "1", idleBeat "2", idleBeat "3", ⟨"1", true, 0, [-4], 2⟩, ⟨"2", true, 0, [-8], 1⟩]

theorem one_owner_iff_two_workers : ∃ x : Session twoWorkers, x.coordinator.slots.size = 2 ∧
    ∀ w w' l l' shard, x.coordinator.assignments.get w = some l →
      x.coordinator.assignments.get w' = some l' → shard ∈ l → shard ∈ l' → w = w' := by
  obtain ⟨x, hx, hsize⟩ := Run.exists_of_execute Session.step (.start twoWorkers none) firstFirst
    (fun x => x.coordinator.slots.size = 2) (by decide +kernel)
  exact ⟨x, hsize, (Session.one_owner_iff (by decide) (by decide) hx).1.mpr (Or.inl hsize.le)⟩

/-- The third registration shares the last shard with the first. -/
theorem one_owner_iff_restarted : ¬ ∀ x : Session threeShards, Run Session.step Free (.start threeShards none) x →
    ∀ w w' l l' shard, x.coordinator.assignments.get w = some l →
      x.coordinator.assignments.get w' = some l' → shard ∈ l → shard ∈ l' → w = w' := by
  intro hall
  obtain ⟨x, hx, hl, hl'⟩ := Run.exists_of_execute Session.step (.start threeShards none) restartedWorker
    (fun x => x.coordinator.assignments.get "1" = some ["shard_0.csv", "shard_2.csv"] ∧
      x.coordinator.assignments.get "3" = some ["shard_2.csv"]) (by decide +kernel)
  have hsame := hall x hx "1" "3" _ _ "shard_2.csv" hl hl' (by decide) (by decide)
  exact absurd hsame (by decide)

end DistributedStorage.Training
