import DistributedStorage.Library.Runs
import DistributedStorage.Training.Workforce

/-! Runs of the coordinator without a crash, over every order of the heartbeats. -/

namespace DistributedStorage.Training

open Library Library.Runs

variable {F : Type} {c : Config F}

/-- What one step of the coordinator used. -/
structure Round (c : Config F) where
  epoch : ℕ
  before : c.Weights
  used : List (String × (List F × ℤ))
  after : c.Weights

/-- A coordinator, what its responses published, and the steps it made, in order. -/
structure Session (c : Config F) where
  coordinator : Coordinator c
  published : List (ℕ × c.Weights)
  rounds : List (Round c)

section

variable [Zero F] [Add F] [Sub F] [Mul F] [Div F] [IntCast F]

/-- The step that a heartbeat sets off, if any. -/
def Coordinator.round (s : Coordinator c) (req : Heartbeat F) : Option (Round c) :=
  if s.terminate then none
  else
    match s.register req.workerId with
    | (_, none) => none
    | (t, some ()) =>
      let u := t.report req
      if u.ready then some ⟨u.epoch, u.weights, u.used, u.applyGradients.weights⟩ else none

namespace Session

def init (c : Config F) : Session c := ⟨.new c, [], []⟩

def step (x : Session c) (req : Heartbeat F) : Option (Session c) :=
  let out := x.coordinator.handleHeartbeat req
  some
    { coordinator := out.1
      published := x.published ++ (out.2.map fun r => (r.epoch, r.weights)).toList
      rounds := x.rounds ++ (x.coordinator.round req).toList }

/-- Heartbeats come in any order, repeated, late or without a gradient, from workers that register in their
order and report what they computed. -/
def Fair (W : Workforce c) (x : Session c) (req : Heartbeat F) : Prop :=
  W.InOrder x.coordinator req ∧ W.Honest x.published x.coordinator req

end Session

/-- The step of an epoch. -/
def Workforce.round (W : Workforce c) (e : ℕ) : Round c where
  epoch := e
  before := W.weights e
  used := W.owners.map fun wid => (wid, W.report wid (W.weights e))
  after := W.weights (e + 1)

/-- Nothing that happened in a session depends on the order of its heartbeats. -/
structure Session.Determined (W : Workforce c) (x : Session c) : Prop where
  follows : x.coordinator.Follows W
  published : ∀ p ∈ x.published, p.2 = W.weights p.1
  rounds : x.rounds = (List.range x.coordinator.epoch).map W.round
  full : 0 < x.coordinator.epoch → x.coordinator.slots.size = c.numWorkers

variable {W : Workforce c} {x y : Session c} {req : Heartbeat F}

lemma Session.init_determined : (init c).Determined W where
  follows := Coordinator.new_follows
  published _ hp := by cases hp
  rounds := rfl
  full h := by cases h

/-- The kinds of heartbeat: after the end of the training, one that sets off no step, one that does. -/
lemma Session.step_cases (h : x.Determined W) (hreq : Fair W x req) (hstep : x.step req = some y) :
    (y.coordinator = x.coordinator ∧ y.rounds = x.rounds ∧
      y.published = x.published ++ [(y.coordinator.epoch, y.coordinator.weights)]) ∨
    ∃ u : Coordinator c, u.Follows W ∧ u.epoch = x.coordinator.epoch ∧
      x.coordinator.slots.size ≤ u.slots.size ∧
      y.published = x.published ++ [(y.coordinator.epoch, y.coordinator.weights)] ∧
      (y.coordinator = u ∧ y.rounds = x.rounds ∨
        u.ready = true ∧ y.coordinator = u.applyGradients.advanceEpoch.clearContrib.finish ∧
        y.rounds = x.rounds ++ [⟨u.epoch, u.weights, u.used, u.applyGradients.weights⟩]) := by
  obtain rfl := Option.some.inj hstep
  by_cases hterm : x.coordinator.terminate = true
  · left
    simp [Coordinator.handleHeartbeat, Coordinator.round, Coordinator.response, hterm]
  · right
    obtain ⟨t, ht, hfollows, -, hepoch, -, hsize⟩ :=
      Coordinator.accept_spec h.follows hreq.1 h.published hreq.2
    refine ⟨t.report req, hfollows, hepoch, hsize, ?_⟩
    by_cases hready : (t.report req).ready = true
    · simp [Coordinator.handleHeartbeat, Coordinator.round, Coordinator.response, hterm, ht,
        Coordinator.maybeStep, hready]
    · simp [Coordinator.handleHeartbeat, Coordinator.round, Coordinator.response, hterm, ht,
        Coordinator.maybeStep, hready]

lemma Session.publish (h : x.Determined W) (hy : y.coordinator.Follows W)
    (hpub : y.published = x.published ++ [(y.coordinator.epoch, y.coordinator.weights)]) :
    ∀ p ∈ y.published, p.2 = W.weights p.1 := by
  rw [hpub]
  intro p hp
  obtain hold | hnew := List.mem_append.mp hp
  · exact h.published p hold
  · obtain rfl := List.mem_singleton.mp hnew
    exact hy.trained

lemma Coordinator.Follows.round {u : Coordinator c} (h : u.Follows W) (hready : u.ready = true) :
    (⟨u.epoch, u.weights, u.used, u.applyGradients.weights⟩ : Round c) = W.round u.epoch := by
  rw [Workforce.round, used_eq h hready, applyGradients_weights h hready, h.trained]

lemma Session.step_determined (h : x.Determined W) (hreq : Fair W x req) (hstep : x.step req = some y) :
    y.Determined W := by
  obtain ⟨hco, hro, hpub⟩ | ⟨u, hu, hepoch, hsize, hpub, hquiet | hstepped⟩ := step_cases h hreq hstep
  · have hy : y.coordinator.Follows W := hco ▸ h.follows
    refine ⟨hy, publish h hy hpub, ?_, ?_⟩
    · rw [hro, hco, h.rounds]
    · rw [hco]
      exact h.full
  · obtain ⟨hco, hro⟩ := hquiet
    have hy : y.coordinator.Follows W := hco ▸ hu
    refine ⟨hy, publish h hy hpub, ?_, fun hpos => ?_⟩
    · rw [hro, hco, hepoch, h.rounds]
    · rw [hco] at hpos ⊢
      have hfull := h.full (hepoch ▸ hpos)
      exact Nat.le_antisymm hu.size_le (hfull ▸ hsize)
  · obtain ⟨hready, hco, hro⟩ := hstepped
    have hy : y.coordinator.Follows W :=
      hco ▸ Coordinator.finish_follows (Coordinator.cleared_follows hu hready)
    obtain ⟨hep, hslots, -⟩ := Coordinator.finish_frame u.applyGradients.advanceEpoch.clearContrib
    refine ⟨hy, publish h hy hpub, ?_, fun _ => ?_⟩
    · have hnext : y.coordinator.epoch = x.coordinator.epoch + 1 := by
        rw [hco, hep, ← hepoch]
        rfl
      rw [hro, hnext, List.range_succ, List.map_append, h.rounds, hu.round hready, hepoch]
      rfl
    · rw [hco, hslots]
      change u.slots.size = c.numWorkers
      exact Coordinator.ready_size hu hready

lemma Session.determined (h : Run step (Fair W) (init c) x) : x.Determined W :=
  Run.invariant (fun _ _ _ hx hreq hs => step_determined hx hreq hs) h init_determined

/-- Two runs whose workers are the same publish the same weights for every epoch, whatever the order of
their heartbeats. Their steps are those of the epochs one after the other, and a step uses one gradient of
each worker that owns a shard, computed from the weights published for its epoch. -/
theorem bulk_synchronous (W : Workforce c) {x y : Session c} (hx : Run Session.step (Session.Fair W) (.init c) x)
    (hy : Run Session.step (Session.Fair W) (.init c) y) :
    (∀ e w w', (e, w) ∈ x.published → (e, w') ∈ y.published → w = w') ∧
    x.rounds.map Round.epoch = List.range x.coordinator.epoch ∧
    (x.rounds <+: y.rounds ∨ y.rounds <+: x.rounds) ∧
    ∀ r ∈ x.rounds,
      (r.used.map Prod.fst).Nodup ∧
      (∀ wid, wid ∈ r.used.map Prod.fst ↔
        ∃ shards, x.coordinator.assignments.get wid = some shards ∧ shards ≠ []) ∧
      (∀ u ∈ r.used, u.2 = W.report u.1 r.before) ∧
      (∀ w, (r.epoch, w) ∈ x.published → w = r.before) ∧
      (∀ w, (r.epoch + 1, w) ∈ x.published → w = r.after) ∧
      r.after = c.descend r.before (r.used.map fun u => W.gradient u.1 r.before) := by
  have hdx := Session.determined hx
  have hdy := Session.determined hy
  refine ⟨?_, ?_, ?_, ?_⟩
  · intro e w w' hw hw'
    exact (hdx.published _ hw).trans (hdy.published _ hw').symm
  · rw [hdx.rounds, List.map_map]
    exact List.map_id _
  · have hgrows : ∀ m n, m ≤ n → (List.range m).map W.round <+: (List.range n).map W.round := by
      intro m n hle
      rw [← Nat.min_eq_left hle, ← List.take_range]
      exact (List.take_prefix m _).map _
    rw [hdx.rounds, hdy.rounds]
    exact (Nat.le_total _ _).imp (hgrows _ _) (hgrows _ _)
  · intro r hr
    rw [hdx.rounds] at hr
    obtain ⟨e, he, rfl⟩ := List.mem_map.mp hr
    have hkeys : (W.round e).used.map Prod.fst = W.owners := by
      simp [Workforce.round, Function.comp_def]
    have hfull : x.coordinator.slots.size = c.numWorkers :=
      hdx.full (Nat.zero_lt_of_lt (List.mem_range.mp he))
    rw [hkeys]
    refine ⟨W.owners_nodup, ?_, ?_, ?_, ?_, ?_⟩
    · intro wid
      rw [Workforce.owners, List.mem_map]
      constructor
      · rintro ⟨⟨a, sh⟩, hmem, rfl⟩
        obtain ⟨htable, hne⟩ := List.mem_filter.mp hmem
        refine ⟨sh, ?_, by simpa using hne⟩
        rw [OrderedDict.get_eq_some, hdx.follows.assigned, hfull]
        exact htable
      · rintro ⟨sh, hget, hne⟩
        rw [OrderedDict.get_eq_some, hdx.follows.assigned, hfull] at hget
        exact ⟨(wid, sh), List.mem_filter.mpr ⟨hget, by simpa using hne⟩, rfl⟩
    · intro u hu
      obtain ⟨wid, -, rfl⟩ := List.mem_map.mp hu
      rfl
    · intro w hw
      exact hdx.published _ hw
    · intro w hw
      exact hdx.published _ hw
    · change W.weights (e + 1) = _
      rw [W.weights_succ, Workforce.next]
      simp [Workforce.round, Function.comp_def]

end

instance [DecidableEq F] (W : Workforce c) (x : Session c) (req : Heartbeat F) :
    Decidable (Session.Fair W x req) :=
  inferInstanceAs (Decidable (_ ∧ _))

def twoWorkers : Config ℤ := ⟨2, 1, 2, ["shard_0.csv", "shard_1.csv"], 1, false⟩

/-- The first worker pulls towards 4 with one sample, the second towards 8. -/
def pair : Workforce twoWorkers where
  order := ["1", "2"]
  nodup := by decide
  complete := rfl
  gradient wid w := (fun j => w j - (if wid = "1" then 4 else 8), 1)

def idleBeat (wid : String) : Heartbeat ℤ := ⟨wid, false, -1, [], 0⟩

def firstFirst : List (Heartbeat ℤ) :=
  [idleBeat "1", ⟨"1", true, 0, [-4], 1⟩, idleBeat "2", ⟨"1", true, 0, [-4], 1⟩, ⟨"2", true, 0, [-8], 1⟩,
    ⟨"1", true, 0, [-4], 1⟩]

def secondFirst : List (Heartbeat ℤ) :=
  [idleBeat "1", idleBeat "2", ⟨"2", true, 0, [-8], 1⟩, ⟨"1", true, 0, [-4], 1⟩]

theorem bulk_synchronous_both_orders : ∃ x y : Session twoWorkers,
    x.rounds.length = 1 ∧ y.rounds.length = 1 ∧
      ∀ e w w', (e, w) ∈ x.published → (e, w') ∈ y.published → w = w' := by
  obtain ⟨x, hx, hpx⟩ := Run.exists_of_execute (guarded Session.step (Session.Fair pair))
    (.init twoWorkers) firstFirst (fun x => x.rounds.length = 1) (by decide +kernel)
  obtain ⟨y, hy, hpy⟩ := Run.exists_of_execute (guarded Session.step (Session.Fair pair))
    (.init twoWorkers) secondFirst (fun y => y.rounds.length = 1) (by decide +kernel)
  exact ⟨x, y, hpx, hpy, (bulk_synchronous pair hx.of_guarded hy.of_guarded).1⟩

end DistributedStorage.Training
