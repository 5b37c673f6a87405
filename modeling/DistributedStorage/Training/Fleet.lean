import DistributedStorage.Training.Worker

/-! The trainer as it is deployed: the coordinator, worker processes that come and go, and calls between them
that may be handled late or never and whose answers may be lost. What is trained does not depend on any
of it. -/

set_option linter.unusedSectionVars false

namespace DistributedStorage.Training

open Library Library.Runs

variable {F : Type}

/-- A call of `Heartbeat`. Its outcome is set once the coordinator has handled it; nothing inside is a
handler that raised. -/
structure Rpc (c : Config F) where
  request : Heartbeat F
  outcome : Option (Option (Response c))

/-- A running worker, and the number of the call it waits for. -/
structure Process (F : Type) where
  worker : Worker F
  call : Option ℕ

structure Fleet (c : Config F) where
  coordinator : Coordinator c
  processes : ℕ → Option (Process F)
  rpcs : List (Rpc c)

/-- Processes and calls are numbered. The failures are those of the files a worker reads. -/
inductive FleetEvent
  | start (p : ℕ) (wid : String)
  | send (p : ℕ)
  | handle (k : ℕ)
  | receive (p : ℕ) (failures : List (Option ℕ))
  | fail (p : ℕ)
  | stop (p : ℕ)

/-- What a worker makes of an answer. -/
def Response.reply {c : Config F} (r : Response c) : Reply F :=
  ⟨r.shards, r.epoch, List.ofFn r.weights, r.terminate⟩

namespace Fleet

section

variable {c : Config F}

def setProcess (x : Fleet c) (p : ℕ) (q : Option (Process F)) : Fleet c :=
  { x with processes := Function.update x.processes p q }

def init [Zero F] (c : Config F) : Fleet c := ⟨.new c, fun _ => none, []⟩

/-- Every file that is read is read to its end. -/
def Reads (_ : Fleet c) : FleetEvent → Prop
  | .receive _ failures => ∀ f ∈ failures, f = none
  | _ => True

instance (x : Fleet c) (e : FleetEvent) : Decidable (Reads x e) :=
  match e with
  | .receive _ failures => inferInstanceAs (Decidable (∀ f ∈ failures, f = none))
  | .start .. | .send .. | .handle .. | .fail .. | .stop .. => inferInstanceAs (Decidable True)

/-- The outcome of the call that a process waits for. -/
def outcome (x : Fleet c) (q : Process F) : Option (Option (Response c)) :=
  q.call.bind fun k => x.rpcs[k]?.bind Rpc.outcome

end

variable [Zero F] [One F] [Add F] [Sub F] [Mul F] [Div F] [Neg F] [IntCast F] [LT F]
  [DecidableRel fun a b : F => a < b] {c : Config F}

def step (env : Environment F) (x : Fleet c) : FleetEvent → Option (Fleet c)
  | .start p wid =>
    match x.processes p with
    | none => some (x.setProcess p (some ⟨.new wid, none⟩))
    | some _ => none
  | .send p =>
    match x.processes p with
    | some ⟨w, none⟩ =>
      some { x.setProcess p (some ⟨w, some x.rpcs.length⟩) with
        rpcs := x.rpcs ++ [⟨w.request, none⟩] }
    | _ => none
  | .handle k =>
    match x.rpcs[k]? with
    | some ⟨req, none⟩ =>
      let out := x.coordinator.handleHeartbeat req
      some { x with coordinator := out.1, rpcs := x.rpcs.set k ⟨req, some out.2⟩ }
    | _ => none
  | .receive p failures =>
    match x.processes p with
    | some q =>
      match x.outcome q with
      | some (some r) =>
        some (x.setProcess p ((q.worker.handle env r.reply failures).map fun w => ⟨w, none⟩))
      | _ => none
    | none => none
  | .fail p =>
    match x.processes p with
    | some ⟨w, some _⟩ => some (x.setProcess p (some ⟨w, none⟩))
    | _ => none
  | .stop p => some (x.setProcess p none)

end Fleet

/-! What is trained: the slots' gradients, each over the rows of its shards, one step after the other. -/

section Trained

variable [Zero F] [One F] [Add F] [Sub F] [Mul F] [Div F] [Neg F] [IntCast F] [LT F]
  [DecidableRel fun a b : F => a < b]

namespace Config

variable (c : Config F)

def slice (k : ℕ) : List String := sliceFrom c.numWorkers k c.shards

def slotRows (env : Environment F) (k : ℕ) : List (Row F) := (c.slice k).flatMap env.rows

def slotGradient (env : Environment F) (w : c.Weights) (k : ℕ) : c.Weights × ℤ :=
  (fun j => ((env.gradient (List.ofFn w) (c.slotRows env k)).getD []).getD j 0, (c.slotRows env k).length)

/-- The slots that own a shard. -/
def owningSlots : List ℕ := (List.range c.numWorkers).filter fun k => !(c.slice k).isEmpty

def train (env : Environment F) (w : c.Weights) : c.Weights :=
  c.descend w (c.owningSlots.map (c.slotGradient env w))

/-- The weights after `e` epochs. -/
def trained (env : Environment F) (e : ℕ) : c.Weights := (c.train env)^[e] fun _ => 0

/-- The report of a worker in slot `k` at the weights `w`. -/
def Reports (env : Environment F) (k : ℕ) (w : c.Weights) (r : List F × ℤ) : Prop :=
  c.slice k ≠ [] ∧ env.gradient (List.ofFn w) (c.slotRows env k) = some r.1 ∧
    r.2 = (c.slotRows env k).length

variable {c}

lemma trained_succ (env : Environment F) (e : ℕ) :
    c.trained env (e + 1) = c.train env (c.trained env e) := Function.iterate_succ_apply' ..

end Config

variable {c : Config F} {env : Environment F}

lemma addRows_length {weights grad out : List F} {data : List (Row F)} (hlen : grad.length = weights.length)
    (h : env.addRows weights grad data = some out) : out.length = weights.length := by
  induction data generalizing grad with
  | nil =>
    cases h
    exact hlen
  | cons row data ih =>
    obtain ⟨x, y⟩ := row
    simp only [Environment.addRows] at h
    split_ifs at h with hshort
    refine ih ?_ h
    rw [List.length_zipWith, hlen, Nat.min_eq_left (not_lt.mp hshort)]

lemma gradient_length {weights out : List F} {data : List (Row F)}
    (h : env.gradient weights data = some out) : out.length = weights.length :=
  addRows_length (List.length_replicate ..) h

lemma Config.Reports.eq {k : ℕ} {w : c.Weights} {r : List F × ℤ} (h : c.Reports env k w r) :
    r = (List.ofFn (c.slotGradient env w k).1, (c.slotGradient env w k).2) := by
  obtain ⟨-, hgrad, hcount⟩ := h
  have hlen := gradient_length hgrad
  rw [List.length_ofFn] at hlen
  refine Prod.ext (List.ext_getElem ?_ fun j hj hj' => ?_) hcount
  · rw [hlen, List.length_ofFn]
  · rw [List.getElem_ofFn]
    simp only [slotGradient, hgrad, Option.getD_some]
    rw [List.getD_eq_getElem _ _ hj]

namespace Coordinator

variable {s t : Coordinator c} {req : Heartbeat F} {wid : String}

/-- Slot `k` was given to the worker `wid`. -/
def Placed (s : Coordinator c) (k : ℕ) (wid : String) : Prop := s.slots.keys[k]? = some wid

/-- The coordinator holds reports at its weights, which are the trained ones. -/
structure Trained (env : Environment F) (s : Coordinator c) : Prop where
  sliced : s.Sliced
  reported : ∀ wid r, s.epochContrib.get wid = some r →
    ∃ k, s.Placed k wid ∧ c.Reports env k (c.trained env s.epoch) r
  weights : s.weights = c.trained env s.epoch

/-- A request is of a worker with a slot, and its gradient is that of an epoch. -/
def Genuine (env : Environment F) (s : Coordinator c) (req : Heartbeat F) : Prop :=
  req.hasGradient = true → ∃ k, s.Placed k req.workerId ∧ ∃ e : ℕ, req.epoch = e ∧
    c.Reports env k (c.trained env e) (req.gradient, req.sampleCount)

lemma Placed.grow {k : ℕ} (h : s.Placed k wid) (hkeys : s.slots.keys <+: t.slots.keys) : t.Placed k wid := by
  obtain ⟨more, hmore⟩ := hkeys
  have hlt := (List.getElem?_eq_some_iff.mp h).1
  rw [Placed, ← hmore, List.getElem?_append_left hlt]
  exact h

lemma Genuine.grow (h : Genuine env s req) (hkeys : s.slots.keys <+: t.slots.keys) : Genuine env t req := by
  intro hgrad
  obtain ⟨k, hk, he⟩ := h hgrad
  exact ⟨k, hk.grow hkeys, he⟩

lemma register_cases (h : s.Sliced) (hn : 1 ≤ c.numWorkers) (wid : String) :
    ∃ t, s.register wid = (t, some ()) ∧ t.Sliced ∧ s.slots.keys <+: t.slots.keys ∧
      (∃ k, t.Placed k wid) ∧ t.weights = s.weights ∧ t.epoch = s.epoch ∧ t.terminate = s.terminate ∧
      t.epochContrib = s.epochContrib := by
  obtain ⟨t, ht, hsl⟩ := h.register hn wid
  refine ⟨t, ht, hsl, ?_⟩
  by_cases hold : (s.slots.get wid).isSome = true
  · rw [Coordinator.register, if_pos hold] at ht
    cases ht
    have hmem : wid ∈ s.slots.keys := by
      by_contra hnot
      rw [OrderedDict.get_eq_none.mpr hnot] at hold
      cases hold
    exact ⟨List.prefix_rfl, List.mem_iff_getElem?.mp hmem, rfl, rfl, rfl, rfl⟩
  · have hnew : wid ∉ s.slots.keys := by
      rw [← OrderedDict.get_eq_none]
      simpa using hold
    have hpos : c.numWorkers ≠ 0 := by omega
    have hreg : s.register wid = (s.registered wid, some ()) := by
      simp [Coordinator.register, hold, hpos, registered]
    rw [hreg] at ht
    cases ht
    have hkeys : (s.registered wid).slots.keys = s.slots.keys ++ [wid] := by
      simp only [registered, OrderedDict.keys, OrderedDict.set_items_of_notMem hnew, List.map_append,
        List.map_cons, List.map_nil]
    refine ⟨hkeys ▸ List.prefix_append _ _, ⟨s.slots.keys.length, ?_⟩, rfl, rfl, rfl, rfl⟩
    rw [Placed, hkeys]
    simp

lemma Trained.report (h : s.Trained env) (hreq : Genuine env s req) : (s.report req).Trained env := by
  obtain ⟨hw, he, -, hslots⟩ := report_frame s req
  refine ⟨h.sliced.of_eq hslots (report_assignments s req), fun wid r hr => ?_, ?_⟩
  · have hplaced (k : ℕ) : (s.report req).Placed k wid ↔ s.Placed k wid := by rw [Placed, Placed, hslots]
    simp only [hplaced, he]
    simp only [Coordinator.report] at hr
    split_ifs at hr with hkeep
    · change (s.epochContrib.set req.workerId _).get wid = some r at hr
      rw [OrderedDict.get_set] at hr
      split_ifs at hr with hwid
      · obtain rfl := Option.some.inj hr
        obtain ⟨k, hk, e, hepoch, hrep⟩ := hreq hkeep.1
        have hsame : e = s.epoch := by
          have := hkeep.2.1
          omega
        exact ⟨k, hwid ▸ hk, hsame ▸ hrep⟩
      · exact h.reported wid r hr
    · exact h.reported wid r hr
  · rw [hw, he]
    exact h.weights

/-- With no more workers than it waits for, a coordinator that is ready has one report of each slot that
owns a shard, in the order of the slots. -/
lemma Trained.used (h : s.Trained env) (hfew : s.slots.size ≤ c.numWorkers) (hready : s.ready = true) :
    s.used.map Prod.snd = (c.owningSlots.map (c.slotGradient env (c.trained env s.epoch))).map
      fun r => (List.ofFn r.1, r.2) := by
  simp only [ready, Bool.and_eq_true, decide_eq_true_eq, List.all_eq_true] at hready
  obtain ⟨⟨hfull, -⟩, hall⟩ := hready
  have hsize : s.slots.keys.length = c.numWorkers := by
    rw [OrderedDict.keys_length]
    omega
  have howners : s.contributors =
      (s.slots.keys.zipIdx.filter fun x => !(c.slice x.2).isEmpty).map Prod.fst := by
    rw [contributors, h.sliced, List.filter_map, List.map_map]
    rfl
  have hreports : ∀ x ∈ s.slots.keys.zipIdx, !(c.slice x.2).isEmpty → s.epochContrib.get x.1 =
      some (List.ofFn (c.slotGradient env (c.trained env s.epoch) x.2).1,
        (c.slotGradient env (c.trained env s.epoch) x.2).2) := by
    intro x hx hne
    have hmem : x.1 ∈ s.contributors := by
      rw [howners]
      exact List.mem_map.mpr ⟨x, List.mem_filter.mpr ⟨hx, hne⟩, rfl⟩
    obtain ⟨r, hr⟩ := Option.isSome_iff_exists.mp (hall x.1 hmem)
    obtain ⟨k, hk, hrep⟩ := h.reported x.1 r hr
    have hat : s.slots.keys[x.2]? = some x.1 := List.mk_mem_zipIdx_iff_getElem?.mp hx
    have hlt := (List.getElem?_eq_some_iff.mp hk).1
    have hkx : k = x.2 := (List.getElem?_inj hlt s.slots.nodup).mp (hk.trans hat.symm)
    rw [hr, hrep.eq, hkx]
  have hrange : (s.slots.keys.zipIdx.filter fun x => !(c.slice x.2).isEmpty).map Prod.snd = c.owningSlots := by
    rw [Config.owningSlots, ← hsize]
    have hsnd : s.slots.keys.zipIdx.map Prod.snd = List.range s.slots.keys.length := by
      rw [List.zipIdx_map_snd, List.range_eq_range']
    rw [← hsnd, List.filter_map]
    rfl
  rw [Coordinator.used, howners, List.filterMap_map, List.map_filterMap, ← hrange, List.map_map, List.map_map,
    ← List.filterMap_eq_map']
  refine List.filterMap_congr fun x hx => ?_
  obtain ⟨hmem, hne⟩ := List.mem_filter.mp hx
  simp only [Function.comp_apply, hreports x hmem hne]
  rfl

lemma finish_eq (s : Coordinator c) : s.finish.assignments = s.assignments ∧
    s.finish.epochContrib = s.epochContrib := by
  simp only [finish]
  split_ifs <;> exact ⟨rfl, rfl⟩

lemma Trained.maybeStep (h : s.Trained env) (hfew : s.slots.size ≤ c.numWorkers) :
    s.maybeStep.Trained env := by
  by_cases hready : s.ready = true
  · rw [Coordinator.maybeStep, if_pos hready]
    obtain ⟨hepoch, hslots, hweights⟩ := finish_frame s.applyGradients.advanceEpoch.clearContrib
    obtain ⟨hass, hcontrib⟩ := finish_eq s.applyGradients.advanceEpoch.clearContrib
    refine ⟨h.sliced.of_eq hslots hass, fun wid r hr => ?_, ?_⟩
    · rw [hcontrib] at hr
      cases hr
    · rw [hweights, hepoch]
      change c.aggregate s.weights (s.used.map Prod.snd) = c.trained env (s.epoch + 1)
      rw [h.used hfew hready, aggregate_eq_descend, h.weights, Config.trained_succ]
      rfl
  · rw [Coordinator.maybeStep, if_neg hready]
    exact h

/-- What a heartbeat is answered. -/
def Answers (env : Environment F) (s : Coordinator c) (wid : String) (r : Response c) : Prop :=
  r.weights = c.trained env r.epoch ∧ (r.terminate = true ∨ ∃ k, s.Placed k wid ∧ r.shards = c.slice k)

lemma Sliced.response_shards (h : s.Sliced) {k : ℕ} (hk : s.Placed k wid) :
    (s.response wid).shards = c.slice k := by
  have hget : s.assignments.get wid = some (c.slice k) := h.get_iff.mpr ⟨k, hk, rfl⟩
  simp [response, hget]

lemma Trained.heartbeat (h : s.Trained env) (hn : 1 ≤ c.numWorkers) (hreq : Genuine env s req)
    (hfew : (s.handleHeartbeat req).1.slots.size ≤ c.numWorkers) :
    (s.handleHeartbeat req).1.Trained env ∧ s.slots.keys <+: (s.handleHeartbeat req).1.slots.keys ∧
    ∃ r, (s.handleHeartbeat req).2 = some r ∧
      Answers env (s.handleHeartbeat req).1 req.workerId r := by
  by_cases hterm : s.terminate = true
  · simp only [handleHeartbeat, if_pos hterm] at hfew ⊢
    exact ⟨h, List.prefix_rfl, _, rfl, h.weights, Or.inl hterm⟩
  · obtain ⟨t, ht, hsl, hkeys, ⟨k, hk⟩, hw, he, -, hc⟩ := register_cases h.sliced hn req.workerId
    simp only [handleHeartbeat, if_neg hterm, ht] at hfew ⊢
    obtain ⟨-, hre, -, hrs⟩ := report_frame t req
    obtain ⟨hslots, -⟩ := maybeStep_frame (t.report req)
    rw [hslots, hrs] at hfew
    have htrained : t.Trained env := by
      refine ⟨hsl, fun wid r hr => ?_, by rw [hw, he, h.weights]⟩
      rw [hc] at hr
      obtain ⟨k, hk, hrep⟩ := h.reported wid r hr
      exact ⟨k, hk.grow hkeys, he ▸ hrep⟩
    have hreport := (htrained.report (hreq.grow hkeys)).maybeStep (hrs ▸ hfew)
    have hplaced : (t.report req).maybeStep.Placed k req.workerId := by
      rw [Placed, hslots, hrs]
      exact hk
    refine ⟨hreport, ?_, _, rfl, hreport.weights, Or.inr ⟨k, hplaced, ?_⟩⟩
    · rw [hslots, hrs]
      exact hkeys
    · exact hreport.sliced.response_shards hplaced

end Coordinator

namespace Worker

variable {s t : Coordinator c} {w v : Worker F} {failures : List (Option ℕ)}

/-- The worker has no shards yet. -/
structure Idle (w : Worker F) : Prop where
  shards : w.shards = []
  loaded : w.loaded = []
  data : w.data = []
  pending : w.pending = none

/-- The worker has loaded the shards of its slot, and its gradient is that of an epoch. -/
structure Settled (env : Environment F) (s : Coordinator c) (w : Worker F) (k : ℕ) : Prop where
  placed : s.Placed k w.workerId
  owns : c.slice k ≠ []
  shards : w.shards = c.slice k
  data : w.data = c.slotRows env k
  pending : ∀ report, w.pending = some report → ∃ e : ℕ, report.1 = e ∧
    c.Reports env k (c.trained env e) (report.2.1, report.2.2)

def Loyal (env : Environment F) (s : Coordinator c) (w : Worker F) : Prop :=
  w.Idle ∨ ∃ k, w.Settled env s k

lemma new_loyal (s : Coordinator c) (wid : String) : (new wid : Worker F).Loyal env s :=
  Or.inl ⟨rfl, rfl, rfl, rfl⟩

lemma Loyal.grow (h : w.Loyal env s) (hkeys : s.slots.keys <+: t.slots.keys) : w.Loyal env t := by
  rcases h with h | ⟨k, h⟩
  · exact Or.inl h
  · exact Or.inr ⟨k, h.placed.grow hkeys, h.owns, h.shards, h.data, h.pending⟩

lemma Loyal.request (h : w.Loyal env s) : Coordinator.Genuine env s w.request := by
  intro hgrad
  cases hp : w.pending with
  | none => simp [Worker.request, hp] at hgrad
  | some report =>
    rcases h with h | ⟨k, h⟩
    · rw [h.pending] at hp
      cases hp
    · obtain ⟨e, he, hrep⟩ := h.pending report hp
      obtain ⟨pe, pg, pc⟩ := report
      simp only [Worker.request, hp]
      exact ⟨k, h.placed, e, he, hrep⟩

lemma request_workerId (w : Worker F) : w.request.workerId = w.workerId := by
  simp only [request]
  split <;> rfl

/-- New shards are loaded one after the other. -/
lemma loadShards_new (env : Environment F) (hf : ∀ f ∈ failures, f = none) {shards : List String}
    (hnew : (w.loaded ++ shards).Nodup) :
    (w.loadShards env shards failures).data = w.data ++ shards.flatMap env.rows ∧
    (w.loadShards env shards failures).workerId = w.workerId := by
  induction shards generalizing w failures with
  | nil => simp [loadShards]
  | cons a shards ih =>
    have hhead : failures.head?.join = none := by
      cases failures with
      | nil => rfl
      | cons f fs => exact hf f List.mem_cons_self
    have hnot : a ∉ w.loaded := fun hmem =>
      (List.disjoint_of_nodup_append hnew) hmem List.mem_cons_self
    have hload : w.load env a none = { w with data := w.data ++ env.rows a, loaded := w.loaded ++ [a] } :=
      if_neg hnot
    rw [loadShards, hhead, hload]
    obtain ⟨hdata, hid⟩ := ih (w := { w with data := w.data ++ env.rows a, loaded := w.loaded ++ [a] })
      (fun f hm => hf f (List.mem_of_mem_tail hm)) (by simpa using hnew)
    exact ⟨by rw [hdata, List.flatMap_cons, List.append_assoc], hid⟩

lemma Settled.compute {k : ℕ} (h : w.Settled env s k) {e : ℕ}
    (hv : w.compute env e (List.ofFn (c.trained env e)) = some v) :
    v.Settled env s k ∧ v.workerId = w.workerId := by
  simp only [Worker.compute] at hv
  split_ifs at hv
  · obtain ⟨grad, hgrad, rfl⟩ := Option.map_eq_some_iff.mp hv
    refine ⟨⟨h.placed, h.owns, h.shards, h.data, fun report hrep => ?_⟩, rfl⟩
    obtain rfl := Option.some.inj hrep
    refine ⟨e, rfl, h.owns, ?_, ?_⟩
    · rw [← h.data]
      exact hgrad
    · rw [← h.data]
  · obtain rfl := Option.some.inj hv
    exact ⟨h, rfl⟩

lemma Loyal.handle (h : w.Loyal env s) (hshards : c.shards.Nodup) {r : Response c}
    (hr : Coordinator.Answers env s w.workerId r) (hf : ∀ f ∈ failures, f = none)
    (hv : w.handle env r.reply failures = some v) : v.Loyal env s ∧ v.workerId = w.workerId := by
  obtain ⟨hweights, hterm⟩ := hr
  simp only [Worker.handle] at hv
  split_ifs at hv with hlast
  obtain ⟨k, hk, hrs⟩ := hterm.resolve_left hlast
  simp only [Response.reply, hweights, hrs] at hv
  rcases h with h | ⟨k', h⟩
  · by_cases hnil : c.slice k = []
    · have hsame : w.assign env (c.slice k) failures = w := if_neg fun hne => hne.1 hnil
      rw [hsame, Worker.compute, if_neg fun hne => hne.2.1 h.shards] at hv
      obtain rfl := Option.some.inj hv
      exact ⟨Or.inl h, rfl⟩
    · have hassign : w.assign env (c.slice k) failures =
          { w with shards := c.slice k }.loadShards env (c.slice k) failures :=
        if_pos ⟨hnil, fun heq => hnil (heq.trans h.shards)⟩
      have hnodup : (w.loaded ++ c.slice k).Nodup := by
        rw [h.loaded, List.nil_append]
        exact hshards.sublist (sliceFrom_sublist _ _ _)
      obtain ⟨hdata, hid⟩ := loadShards_new env (w := { w with shards := c.slice k }) hf hnodup
      obtain ⟨hsh, hpend, -⟩ := loadShards_frame { w with shards := c.slice k } env (c.slice k) failures
      rw [hassign] at hv
      obtain ⟨hset, hsame⟩ := Settled.compute (s := s) (k := k) ⟨by rw [hid]; exact hk, hnil, hsh,
        by rw [hdata, h.data]; rfl, fun report hrep => by
          rw [hpend, h.pending] at hrep
          cases hrep⟩ hv
      exact ⟨Or.inr ⟨k, hset⟩, hsame.trans hid⟩
  · have hlt := (List.getElem?_eq_some_iff.mp hk).1
    have hkk : k = k' := (List.getElem?_inj hlt s.slots.nodup).mp (hk.trans h.placed.symm)
    subst hkk
    have hsame : w.assign env (c.slice k) failures = w := if_neg fun hne => hne.2 h.shards.symm
    rw [hsame] at hv
    obtain ⟨hset, hid⟩ := h.compute hv
    exact ⟨Or.inr ⟨k, hset⟩, hid⟩

end Worker

namespace Fleet

/-- What holds of a fleet with no more workers than the coordinator waits for. -/
structure Sound (env : Environment F) (x : Fleet c) : Prop where
  trained : x.coordinator.Trained env
  requests : ∀ rpc ∈ x.rpcs, Coordinator.Genuine env x.coordinator rpc.request
  answers : ∀ rpc ∈ x.rpcs, ∀ r, rpc.outcome = some (some r) →
    Coordinator.Answers env x.coordinator rpc.request.workerId r
  workers : ∀ p q, x.processes p = some q → q.worker.Loyal env x.coordinator
  calls : ∀ p q k, x.processes p = some q → q.call = some k →
    ∃ rpc, x.rpcs[k]? = some rpc ∧ rpc.request.workerId = q.worker.workerId

variable {x y : Fleet c} {e : FleetEvent}

lemma init_sound : (init c).Sound env where
  trained := ⟨rfl, (fun _ _ h => by cases h), rfl⟩
  requests _ h := (List.not_mem_nil h).elim
  answers _ h := (List.not_mem_nil h).elim
  workers _ _ h := by cases h
  calls _ _ _ h := by cases h

/-- One process changes. -/
lemma Sound.setProcess (h : x.Sound env) (p : ℕ) {q : Option (Process F)}
    (hworker : ∀ v, q = some v → v.worker.Loyal env x.coordinator)
    (hcall : ∀ v k, q = some v → v.call = some k →
      ∃ rpc, x.rpcs[k]? = some rpc ∧ rpc.request.workerId = v.worker.workerId) :
    (x.setProcess p q).Sound env := by
  refine ⟨h.trained, h.requests, h.answers, fun p' v hv => ?_, fun p' v k hv hk => ?_⟩
  · simp only [Fleet.setProcess] at hv
    by_cases hp : p' = p
    · rw [hp, Function.update_self] at hv
      exact hworker v hv
    · rw [Function.update_of_ne hp] at hv
      exact h.workers p' v hv
  · simp only [Fleet.setProcess] at hv
    by_cases hp : p' = p
    · rw [hp, Function.update_self] at hv
      exact hcall v k hv hk
    · rw [Function.update_of_ne hp] at hv
      exact h.calls p' v k hv hk

lemma Sound.send (h : x.Sound env) {req : Heartbeat F} (hreq : Coordinator.Genuine env x.coordinator req) :
    ({ x with rpcs := x.rpcs ++ [⟨req, none⟩] } : Fleet c).Sound env := by
  refine ⟨h.trained, fun rpc hrpc => ?_, fun rpc hrpc r hr => ?_, h.workers, fun p q k hq hk => ?_⟩
  · rcases List.mem_append.mp hrpc with hold | hnew
    · exact h.requests rpc hold
    · obtain rfl := List.mem_singleton.mp hnew
      exact hreq
  · rcases List.mem_append.mp hrpc with hold | hnew
    · exact h.answers rpc hold r hr
    · obtain rfl := List.mem_singleton.mp hnew
      cases hr
  · obtain ⟨rpc, hrpc, hid⟩ := h.calls p q k hq hk
    refine ⟨rpc, ?_, hid⟩
    rw [List.getElem?_append_left (List.getElem?_eq_some_iff.mp hrpc).1]
    exact hrpc

lemma Sound.handle (h : x.Sound env) (hn : 1 ≤ c.numWorkers) {k : ℕ} {req : Heartbeat F}
    (hk : x.rpcs[k]? = some ⟨req, none⟩)
    (hfew : (x.coordinator.handleHeartbeat req).1.slots.size ≤ c.numWorkers) :
    ({ x with
      coordinator := (x.coordinator.handleHeartbeat req).1
      rpcs := x.rpcs.set k ⟨req, some (x.coordinator.handleHeartbeat req).2⟩ } :
        Fleet c).Sound env := by
  have hlt := (List.getElem?_eq_some_iff.mp hk).1
  have hreq := h.requests _ (List.mem_of_getElem? hk)
  obtain ⟨htrained, hkeys, r, hr, hans⟩ := h.trained.heartbeat hn hreq hfew
  refine ⟨htrained, fun rpc hrpc => ?_, fun rpc hrpc r' hr' => ?_, fun p q hq => ?_,
    fun p q j hq hj => ?_⟩
  · rcases List.mem_or_eq_of_mem_set hrpc with hold | rfl
    · exact (h.requests rpc hold).grow hkeys
    · exact hreq.grow hkeys
  · rcases List.mem_or_eq_of_mem_set hrpc with hold | rfl
    · obtain ⟨hw, hterm⟩ := h.answers rpc hold r' hr'
      refine ⟨hw, hterm.imp_right fun hex => ?_⟩
      obtain ⟨j, hj, hs⟩ := hex
      exact ⟨j, hj.grow hkeys, hs⟩
    · rw [hr] at hr'
      obtain rfl := Option.some.inj (Option.some.inj hr')
      exact hans
  · exact (h.workers p q hq).grow hkeys
  · obtain ⟨rpc, hrpc, hid⟩ := h.calls p q j hq hj
    by_cases hjk : k = j
    · subst hjk
      rw [hk] at hrpc
      obtain rfl := Option.some.inj hrpc
      exact ⟨_, List.getElem?_set_self hlt, hid⟩
    · exact ⟨rpc, by rw [List.getElem?_set_ne hjk]; exact hrpc, hid⟩

lemma step_sound (h : x.Sound env) (hn : 1 ≤ c.numWorkers) (hshards : c.shards.Nodup) (hc : Reads x e)
    (hs : step env x e = some y) (hfew : y.coordinator.slots.size ≤ c.numWorkers) : y.Sound env := by
  cases e with
  | start p wid =>
    simp only [step] at hs
    split at hs
    · cases hs
      refine h.setProcess p (fun v hv => ?_) fun v k hv hk => ?_
      · obtain rfl := Option.some.inj hv
        exact Worker.new_loyal _ wid
      · obtain rfl := Option.some.inj hv
        cases hk
    · cases hs
  | send p =>
    simp only [step] at hs
    split at hs
    · rename_i w hp
      cases hs
      have hloyal := h.workers p _ hp
      refine (h.send hloyal.request).setProcess p (fun v hv => ?_) fun v k hv hk => ?_
      · obtain rfl := Option.some.inj hv
        exact hloyal
      · obtain rfl := Option.some.inj hv
        obtain rfl := Option.some.inj hk
        exact ⟨⟨w.request, none⟩, by simp, w.request_workerId⟩
    · cases hs
  | handle k =>
    simp only [step] at hs
    split at hs
    · rename_i req hk
      cases hs
      exact h.handle hn hk hfew
    · cases hs
  | receive p failures =>
    simp only [step] at hs
    split at hs
    · rename_i q hp
      split at hs
      · rename_i r hout
        cases hs
        obtain ⟨k, hk, hrpc⟩ := Option.bind_eq_some_iff.mp hout
        obtain ⟨rpc, hat, hr⟩ := Option.bind_eq_some_iff.mp hrpc
        obtain ⟨rpc', hat', hid⟩ := h.calls p q k hp hk
        obtain rfl := Option.some.inj (hat.symm.trans hat')
        have hans := h.answers rpc (List.mem_of_getElem? hat) r hr
        rw [hid] at hans
        refine h.setProcess p (fun v hv => ?_) fun v j hv hj => ?_
        · obtain ⟨w, hw, rfl⟩ := Option.map_eq_some_iff.mp hv
          exact ((h.workers p q hp).handle hshards hans hc hw).1
        · obtain ⟨w, -, rfl⟩ := Option.map_eq_some_iff.mp hv
          cases hj
      · cases hs
    · cases hs
  | fail p =>
    simp only [step] at hs
    split at hs
    · rename_i w k hp
      cases hs
      have hloyal := h.workers p _ hp
      refine h.setProcess p (fun v hv => ?_) fun v j hv hj => ?_
      · obtain rfl := Option.some.inj hv
        exact hloyal
      · obtain rfl := Option.some.inj hv
        cases hj
    · cases hs
  | stop p =>
    cases hs
    exact h.setProcess p (fun v hv => by cases hv) fun v k hv => by cases hv

lemma handleHeartbeat_size (s : Coordinator c) (req : Heartbeat F) :
    s.slots.size ≤ (s.handleHeartbeat req).1.slots.size := by
  have hregister : s.slots.size ≤ (s.register req.workerId).1.slots.size := by
    simp only [Coordinator.register]
    split_ifs with hold
    · exact le_rfl
    all_goals
      have hnew : req.workerId ∉ s.slots.keys := by
        rw [← OrderedDict.get_eq_none]
        simpa using hold
      exact (Nat.le_succ _).trans_eq (OrderedDict.set_size_of_notMem hnew).symm
  simp only [Coordinator.handleHeartbeat]
  split_ifs
  · exact le_rfl
  · split
    · rename_i t ht
      rwa [ht] at hregister
    · rename_i t ht
      rw [ht] at hregister
      obtain ⟨hslots, -⟩ := Coordinator.maybeStep_frame (t.report req)
      dsimp only
      rw [hslots, (Coordinator.report_frame t req).2.2.2]
      exact hregister

lemma step_size (hs : step env x e = some y) : x.coordinator.slots.size ≤ y.coordinator.slots.size := by
  cases e with
  | handle k =>
    simp only [step] at hs
    split at hs
    · cases hs
      exact handleHeartbeat_size _ _
    · cases hs
  | start p wid =>
    simp only [step] at hs
    split at hs <;> cases hs
    exact le_rfl
  | send p =>
    simp only [step] at hs
    split at hs <;> cases hs
    exact le_rfl
  | receive p failures =>
    simp only [step] at hs
    split at hs
    · split at hs <;> cases hs
      exact le_rfl
    · cases hs
  | fail p =>
    simp only [step] at hs
    split at hs <;> cases hs
    exact le_rfl
  | stop p =>
    cases hs
    exact le_rfl

lemma sound (hn : 1 ≤ c.numWorkers) (hshards : c.shards.Nodup) (h : Run (step env) Reads (init c) x)
    (hfew : x.coordinator.slots.size ≤ c.numWorkers) : x.Sound env := by
  refine Run.invariant (I := fun x => x.coordinator.slots.size ≤ c.numWorkers → x.Sound env) ?_ h
    (fun _ => init_sound) hfew
  intro x e y hx hc hs hle
  exact step_sound (hx ((step_size hs).trans hle)) hn hshards hc hs hle

/-- Whatever workers are started, stop or start again, and whatever calls are late, repeated or lost: as
long as no more workers register than the coordinator waits for and every file is read to its end, the
weights are those that as many steps make of zero as there were epochs, each with one gradient of every
slot that owns a shard, and every answer carries the weights of its epoch. -/
theorem training_determined (hn : 1 ≤ c.numWorkers) (hshards : c.shards.Nodup)
    (h : Run (step env) Reads (init c) x) (hfew : x.coordinator.slots.size ≤ c.numWorkers) :
    x.coordinator.weights = c.trained env x.coordinator.epoch ∧
    ∀ rpc ∈ x.rpcs, ∀ r, rpc.outcome = some (some r) → r.weights = c.trained env r.epoch := by
  have hx := sound hn hshards h hfew
  exact ⟨hx.trained.weights, fun rpc hrpc r hr => (hx.answers rpc hrpc r hr).1⟩

end Fleet

end Trained

/-- The first call times out and is handled late; the first worker is stopped and started again. -/
def restartedInTime : List FleetEvent :=
  [.start 1 "1", .send 1, .fail 1, .handle 0, .send 1, .handle 1, .receive 1 [], .start 2 "2", .send 2,
    .handle 2, .receive 2 [], .stop 1, .start 3 "1", .send 3, .handle 3, .receive 3 [], .send 3, .handle 4,
    .send 2, .handle 5]

theorem training_determined_restarted : ∃ x : Fleet twoWorkers, x.coordinator.epoch = 1 ∧
    x.coordinator.weights = twoWorkers.trained twoRows 1 := by
  obtain ⟨x, hx, hepoch, hsize⟩ := Run.exists_of_execute
    (guarded (Fleet.step twoRows) Fleet.Reads) (.init twoWorkers) restartedInTime
    (fun x => x.coordinator.epoch = 1 ∧ x.coordinator.slots.size = 2) (by decide +kernel)
  have hdet := (Fleet.training_determined (by decide) (by decide) hx.of_guarded hsize.le).1
  exact ⟨x, hepoch, hepoch ▸ hdet⟩

end DistributedStorage.Training
