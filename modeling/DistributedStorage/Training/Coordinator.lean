import DistributedStorage.Library.OrderedDict
import Mathlib

/-! The parameter server of the distributed training: registration, the gradients of an epoch, the
step, the checkpoint. Numbers are of any type with the operations; no law of theirs is used. -/

namespace DistributedStorage.Training

open Library

variable {F : Type}

/-- What the constructor of `MLCoordinator` fixes; `kv` says whether a checkpoint store was given. -/
structure Config (F : Type) where
  numWorkers : ℕ
  lr : F
  maxEpochs : ℕ
  shards : List String
  dim : ℕ
  kv : Bool

/-- The weights have one entry for each feature and one for the bias. -/
abbrev Config.Weights (c : Config F) : Type := Fin c.dim → F

structure Heartbeat (F : Type) where
  workerId : String
  hasGradient : Bool
  epoch : ℤ
  gradient : List F
  sampleCount : ℤ

structure Response (c : Config F) where
  shards : List String
  epoch : ℕ
  weights : c.Weights
  terminate : Bool

structure Coordinator (c : Config F) where
  weights : c.Weights
  epoch : ℕ
  slots : OrderedDict String ℕ
  assignments : OrderedDict String (List String)
  epochContrib : OrderedDict String (List F × ℤ)
  terminate : Bool

/-- `shards[slot::stride]` for a positive stride. -/
def sliceFrom (stride : ℕ) : ℕ → List String → List String
  | _, [] => []
  | 0, s :: l => s :: sliceFrom stride (stride - 1) l
  | k + 1, _ :: l => sliceFrom stride k l

namespace Coordinator

variable {c : Config F}

/-- `MLCoordinator.__init__` -/
def new [Zero F] (c : Config F) : Coordinator c where
  weights _ := 0
  epoch := 0
  slots := .empty
  assignments := .empty
  epochContrib := .empty
  terminate := false

def contributors (s : Coordinator c) : List String :=
  (s.assignments.items.filter fun x => !x.2.isEmpty).map Prod.fst

def response (s : Coordinator c) (wid : String) : Response c where
  shards := (s.assignments.get wid).getD []
  epoch := s.epoch
  weights := s.weights
  terminate := s.terminate

/-- The first part of the lock section. `none` is the `ValueError` of a slice with stride zero. -/
def register (s : Coordinator c) (wid : String) : Coordinator c × Option Unit :=
  if (s.slots.get wid).isSome then (s, some ())
  else
    let slot := s.slots.size
    let t := { s with slots := s.slots.set wid slot }
    if c.shards ≠ [] ∧ c.numWorkers = 0 then (t, none)
    else ({ t with assignments := s.assignments.set wid (sliceFrom c.numWorkers slot c.shards) }, some ())

/-- A gradient tagged with the current epoch is kept, the first one of each worker. -/
def report (s : Coordinator c) (req : Heartbeat F) : Coordinator c :=
  if req.hasGradient ∧ req.epoch = s.epoch ∧ s.epochContrib.get req.workerId = none then
    { s with epochContrib := s.epochContrib.set req.workerId (req.gradient, req.sampleCount) }
  else s

lemma report_frame (s : Coordinator c) (req : Heartbeat F) : (s.report req).weights = s.weights ∧
    (s.report req).epoch = s.epoch ∧ (s.report req).terminate = s.terminate ∧
    (s.report req).slots = s.slots := by
  simp only [report]
  split <;> exact ⟨rfl, rfl, rfl, rfl⟩

/-- The two tests at the head of `_maybe_step`. -/
def ready (s : Coordinator c) : Bool :=
  decide (c.numWorkers ≤ s.slots.size) && !s.contributors.isEmpty &&
    s.contributors.all fun w => (s.epochContrib.get w).isSome

/-- The contributions the step sums, in the order of its loop. -/
def used (s : Coordinator c) : List (String × (List F × ℤ)) :=
  s.contributors.filterMap fun w => (s.epochContrib.get w).map fun r => (w, r)

/-! The assignments of `_maybe_step` after the new weights, one by one. -/

def advanceEpoch (s : Coordinator c) : Coordinator c := { s with epoch := s.epoch + 1 }

def clearContrib (s : Coordinator c) : Coordinator c := { s with epochContrib := .empty }

def finish (s : Coordinator c) : Coordinator c :=
  if c.maxEpochs ≤ s.epoch then { s with terminate := true } else s

lemma finish_frame (s : Coordinator c) : s.finish.epoch = s.epoch ∧ s.finish.slots = s.slots ∧
    s.finish.weights = s.weights := by
  simp only [finish]
  split <;> exact ⟨rfl, rfl, rfl⟩

/-- `restore`: `raw` is what the store returned, `none` also when there is no store, nothing under the key
or the Get failed. -/
def restore (s : Coordinator c) (raw : Option (c.Weights × ℕ)) : Coordinator c :=
  match raw with
  | some d => { s with weights := d.1, epoch := d.2 }
  | none => s

end Coordinator

/-- The body of the loop over the contributors: a gradient of another length is passed over. -/
def Config.accumulate [Add F] (c : Config F) (acc : c.Weights × ℤ) (r : List F × ℤ) :
    c.Weights × ℤ :=
  if h : r.1.length = c.dim then (fun j => acc.1 j + r.1.get (j.cast h.symm), acc.2 + r.2) else acc

section

variable [Zero F] [Add F] [Sub F] [Mul F] [Div F] [IntCast F]

def Config.aggregate (c : Config F) (w : c.Weights) (reports : List (List F × ℤ)) : c.Weights :=
  let sums := reports.foldl c.accumulate (fun _ => 0, 0)
  if 0 < sums.2 then fun j => w j - c.lr * (sums.1 j / (sums.2 : F)) else w

namespace Coordinator

variable {c : Config F}

def applyGradients (s : Coordinator c) : Coordinator c :=
  { s with weights := c.aggregate s.weights (s.used.map Prod.snd) }

def maybeStep (s : Coordinator c) : Coordinator c :=
  if s.ready then s.applyGradients.advanceEpoch.clearContrib.finish else s

def handleHeartbeat (s : Coordinator c) (req : Heartbeat F) : Coordinator c × Option (Response c) :=
  if s.terminate then (s, some (s.response req.workerId))
  else
    match s.register req.workerId with
    | (t, none) => (t, none)
    | (t, some ()) =>
      let u := (t.report req).maybeStep
      (u, some (u.response req.workerId))

end Coordinator

end

end DistributedStorage.Training
