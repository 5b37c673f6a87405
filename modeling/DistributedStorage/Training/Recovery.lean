import DistributedStorage.Library.Runs
import DistributedStorage.Training.Workforce

/-! The coordinator as a process that crashes between any two assignments of `_maybe_step` and is started
again from the checkpoint in the store. -/

namespace DistributedStorage.Training

open Library Library.Runs

variable {F : Type} {c : Config F}

/-- How far a heartbeat has got in `_maybe_step`; the lock keeps every other heartbeat out until it is
`idle` again. -/
inductive Stage
  | idle
  | stepping
  | advancing
  | clearing
  | checkpointing
  | finishing
  | writing
  | returning
  deriving DecidableEq

/-- What `_write_model` wrote, with the epoch at which the process had started. -/
structure Model (c : Config F) where
  weights : c.Weights
  epoch : ℕ
  started : ℕ

structure Deployment (c : Config F) where
  process : Option (Coordinator c × Stage)
  started : ℕ
  store : Option (c.Weights × ℕ)
  published : List (ℕ × c.Weights)
  models : List (Model c)

/-- `put committed` and `write written` say how the call ends; what it raises is printed and forgotten. -/
inductive Act (F : Type)
  | start (restored : Bool)
  | heartbeat (req : Heartbeat F)
  | next
  | put (committed : Bool)
  | write (written : Bool)
  | crash

namespace Deployment

def init (c : Config F) : Deployment c := ⟨none, 0, none, [], []⟩

def respond (d : Deployment c) (s : Coordinator c) : Deployment c :=
  { d with process := some (s, .idle), published := d.published ++ [(s.epoch, s.weights)] }

def serve (d : Deployment c) (s : Coordinator c) (req : Heartbeat F) : Deployment c :=
  if s.terminate then d.respond s
  else
    match s.register req.workerId with
    | (t, none) => { d with process := some (t, .idle) }
    | (t, some ()) =>
      let u := t.report req
      if u.ready then { d with process := some (u, .stepping) } else d.respond u

section

variable [Zero F] [Add F] [Sub F] [Mul F] [Div F] [IntCast F]

def advance (d : Deployment c) (s : Coordinator c) : Stage → Option (Deployment c)
  | .stepping => some { d with process := some (s.applyGradients, .advancing) }
  | .advancing => some { d with process := some (s.advanceEpoch, .clearing) }
  | .clearing => some { d with process := some (s.clearContrib, .checkpointing) }
  | .finishing =>
    some { d with process := some (s.finish, if c.maxEpochs ≤ s.epoch then .writing else .returning) }
  | .returning => some (d.respond s)
  | _ => none

def step (d : Deployment c) : Act F → Option (Deployment c)
  | .start restored =>
    match d.process with
    | none =>
      let s := (Coordinator.new c).restore (if c.kv && restored then d.store else none)
      some { d with process := some (s, .idle), started := s.epoch }
    | some _ => none
  | .heartbeat req =>
    match d.process with
    | some (s, .idle) => some (d.serve s req)
    | _ => none
  | .next =>
    match d.process with
    | some (s, stage) => d.advance s stage
    | none => none
  | .put committed =>
    match d.process with
    | some (s, .checkpointing) =>
      some
        { d with
          process := some (s, .finishing)
          store := if c.kv && committed then some (s.weights, s.epoch) else d.store }
    | _ => none
  | .write written =>
    match d.process with
    | some (s, .writing) =>
      some
        { d with
          process := some (s, .returning)
          models := if written then ⟨s.weights, s.epoch, d.started⟩ :: d.models else d.models }
    | _ => none
  | .crash => some { d with process := none }

/-- Without a crash the stages make up `_maybe_step`. -/
lemma stages_maybeStep {d : Deployment c} {s : Coordinator c} (h : d.process = some (s, .stepping))
    (hready : s.ready = true) (committed : Bool) :
    (execute step d [.next, .next, .next, .put committed, .next]).bind
      (fun e => e.process.map Prod.fst) = some s.maybeStep := by
  simp [execute, step, h, advance, Coordinator.maybeStep, hready]

end

/-- The workers register in their order, after each start anew, and report what they computed. -/
def Working (W : Workforce c) (d : Deployment c) : Act F → Prop
  | .heartbeat req => ∀ p ∈ d.process, W.InOrder p.1 req ∧ W.Honest d.published p.1 req
  | _ => True

/-- Runs without a crash. -/
def Uninterrupted (W : Workforce c) (d : Deployment c) : Act F → Prop
  | .crash => False
  | a => Working W d a

lemma Uninterrupted.working {W : Workforce c} {d : Deployment c} {a : Act F}
    (h : Uninterrupted W d a) : Working W d a := by
  cases a with
  | crash => cases h
  | start restored => exact h
  | heartbeat req => exact h
  | next => exact h
  | put committed => exact h
  | write written => exact h

/-- Without a crash there is one process, and it starts with epoch 0. -/
def Fresh (d : Deployment c) : Prop :=
  d.started = 0 ∧ (d.process = none → d.store = none) ∧ ∀ m ∈ d.models, m.started = 0

lemma Fresh.keeps {d e : Deployment c} (h : d.Fresh) (hstarted : e.started = d.started) (hmodels : e.models = d.models)
    (hprocess : e.process ≠ none) : e.Fresh :=
  ⟨hstarted.trans h.1, fun hp => absurd hp hprocess, hmodels ▸ h.2.2⟩

lemma serve_frame (d : Deployment c) (s : Coordinator c) (req : Heartbeat F) :
    (d.serve s req).started = d.started ∧
    (d.serve s req).models = d.models ∧ (d.serve s req).process ≠ none := by
  simp only [serve]
  split
  · exact ⟨rfl, rfl, Option.some_ne_none _⟩
  · split
    · exact ⟨rfl, rfl, Option.some_ne_none _⟩
    · split_ifs <;> exact ⟨rfl, rfl, Option.some_ne_none _⟩

section

variable [Zero F] [Add F] [Sub F] [Mul F] [Div F] [IntCast F]

/-- The epoch of a process that started at `started` and goes on. -/
def Unfinished (c : Config F) (started e : ℕ) : Prop := started ≤ e ∧ (e = started ∨ e < c.maxEpochs)

/-- A coordinator that has what it needs for the step of its epoch. -/
def Ready (W : Workforce c) (started : ℕ) (u : Coordinator c) : Prop :=
  u.Follows W ∧ u.ready = true ∧ Unfinished c started u.epoch

def Reached (W : Workforce c) (started : ℕ) (s : Coordinator c) : Stage → Prop
  | .idle | .returning => s.Follows W ∧ (s.terminate = false → Unfinished c started s.epoch)
  | .stepping => Ready W started s
  | .advancing => ∃ u, Ready W started u ∧ s = u.applyGradients
  | .clearing => ∃ u, Ready W started u ∧ s = u.applyGradients.advanceEpoch
  | .checkpointing | .finishing =>
    ∃ u, Ready W started u ∧ s = u.applyGradients.advanceEpoch.clearContrib
  | .writing => s.Follows W ∧ s.terminate = true ∧ (s.epoch = c.maxEpochs ↔ started < c.maxEpochs)

/-- Whatever survives a crash, and whatever a process holds, lies on the path of gradient descent. -/
structure Resumes (W : Workforce c) (d : Deployment c) : Prop where
  process : ∀ p ∈ d.process, Reached W d.started p.1 p.2
  store : ∀ p ∈ d.store, p.1 = W.weights p.2
  published : ∀ p ∈ d.published, p.2 = W.weights p.1
  models : ∀ m ∈ d.models,
    m.weights = W.weights m.epoch ∧ (m.epoch = c.maxEpochs ↔ m.started < c.maxEpochs)

variable {W : Workforce c} {d e : Deployment c} {s : Coordinator c} {a : Act F}

lemma init_resumes : (init c).Resumes W where
  process _ hp := by cases hp
  store _ hp := by cases hp
  published _ hp := by cases hp
  models _ hm := by cases hm

lemma Ready.follows {started : ℕ} {u : Coordinator c} (h : Ready W started u) :
    u.applyGradients.advanceEpoch.clearContrib.Follows W :=
  Coordinator.cleared_follows h.1 h.2.1

lemma Resumes.respond (h : d.Resumes W) (hs : Reached W d.started s .idle) : (d.respond s).Resumes W where
  process p hp := by
    obtain rfl := Option.mem_some_iff.mp hp
    exact hs
  store := h.store
  published p hp := by
    obtain hold | hnew := List.mem_append.mp hp
    · exact h.published p hold
    · obtain rfl := List.mem_singleton.mp hnew
      exact hs.1.trained
  models := h.models

lemma Resumes.moves (h : d.Resumes W) {stage : Stage} (hs : Reached W d.started s stage) :
    Resumes W { d with process := some (s, stage) } where
  process p hp := by
    obtain rfl := Option.mem_some_iff.mp hp
    exact hs
  store := h.store
  published := h.published
  models := h.models

lemma restore_follows {raw : Option (c.Weights × ℕ)} (h : ∀ p ∈ raw, p.1 = W.weights p.2) :
    ((Coordinator.new c).restore raw).Follows W := by
  cases raw with
  | none => exact Coordinator.new_follows
  | some p => exact ⟨rfl, rfl, (by intro x hx; cases hx), h p rfl⟩

lemma Resumes.starts (h : d.Resumes W) (restored : Bool)
    (he : step d (.start restored) = some e) : e.Resumes W := by
  simp only [step] at he
  split at he
  · obtain rfl := Option.some.inj he
    refine ⟨fun p hp => ?_, h.store, h.published, h.models⟩
    obtain rfl := Option.mem_some_iff.mp hp
    refine ⟨restore_follows ?_, fun _ => ⟨le_rfl, .inl rfl⟩⟩
    split
    · exact h.store
    · intro p hp
      cases hp
  · cases he

lemma Resumes.serves (h : d.Resumes W) {req : Heartbeat F} (hs : Reached W d.started s .idle)
    (hin : W.InOrder s req) (hreq : W.Honest d.published s req) : (d.serve s req).Resumes W := by
  simp only [serve]
  by_cases hterm : s.terminate = true
  · rw [if_pos hterm]
    exact h.respond hs
  · obtain ⟨t, ht, hfollows, -, hepoch, hterminate, -⟩ := Coordinator.accept_spec hs.1 hin h.published hreq
    have hopen : Unfinished c d.started (t.report req).epoch := by
      rw [hepoch]
      exact hs.2 (by simpa using hterm)
    rw [if_neg hterm, ht]
    dsimp only
    split_ifs with hready
    · exact h.moves ⟨hfollows, hready, hopen⟩
    · exact h.respond ⟨hfollows, fun _ => hopen⟩

lemma Resumes.advances (h : d.Resumes W) {stage : Stage} (hs : Reached W d.started s stage)
    (he : d.advance s stage = some e) : e.Resumes W := by
  cases stage with
  | stepping =>
    obtain rfl := Option.some.inj he
    exact h.moves ⟨s, hs, rfl⟩
  | advancing =>
    obtain rfl := Option.some.inj he
    obtain ⟨u, hu, rfl⟩ := hs
    exact h.moves ⟨u, hu, rfl⟩
  | clearing =>
    obtain rfl := Option.some.inj he
    obtain ⟨u, hu, rfl⟩ := hs
    exact h.moves ⟨u, hu, rfl⟩
  | finishing =>
    obtain rfl := Option.some.inj he
    obtain ⟨u, hu, rfl⟩ := hs
    have hfollows := Coordinator.finish_follows hu.follows
    obtain ⟨hepoch, -, -⟩ := Coordinator.finish_frame u.applyGradients.advanceEpoch.clearContrib
    obtain ⟨hle, hlast⟩ := hu.2.2
    by_cases hend : c.maxEpochs ≤ u.epoch + 1
    · have hpast : c.maxEpochs ≤ u.applyGradients.advanceEpoch.clearContrib.epoch := hend
      rw [if_pos hpast]
      refine h.moves ⟨hfollows, by simp [Coordinator.finish, hpast], ?_⟩
      rw [hepoch]
      change u.epoch + 1 = c.maxEpochs ↔ d.started < c.maxEpochs
      omega
    · have hbefore : ¬c.maxEpochs ≤ u.applyGradients.advanceEpoch.clearContrib.epoch := hend
      rw [if_neg hbefore]
      refine h.moves ⟨hfollows, fun _ => ?_⟩
      rw [hepoch]
      exact ⟨Nat.le_succ_of_le hle, .inr (Nat.lt_of_not_le hend)⟩
  | returning =>
    obtain rfl := Option.some.inj he
    exact h.respond hs
  | idle => cases he
  | checkpointing => cases he
  | writing => cases he

lemma Resumes.step (h : d.Resumes W) (ha : Working W d a) (he : d.step a = some e) : e.Resumes W := by
  cases a with
  | start restored => exact h.starts restored he
  | heartbeat req =>
    simp only [Deployment.step] at he
    split at he
    · rename_i s hp
      obtain rfl := Option.some.inj he
      obtain ⟨hin, hreq⟩ := ha _ hp
      exact h.serves (h.process _ hp) hin hreq
    · cases he
  | next =>
    simp only [Deployment.step] at he
    split at he
    · rename_i s stage hp
      exact h.advances (h.process _ hp) he
    · cases he
  | put committed =>
    simp only [Deployment.step] at he
    split at he
    · rename_i s hp
      obtain rfl := Option.some.inj he
      obtain ⟨u, hu, rfl⟩ := h.process _ hp
      have hfinishes : Reached W d.started u.applyGradients.advanceEpoch.clearContrib .finishing :=
        ⟨u, hu, rfl⟩
      refine ⟨(h.moves hfinishes).process, ?_, h.published, h.models⟩
      dsimp only
      split_ifs
      · intro p hstored
        obtain rfl := Option.mem_some_iff.mp hstored
        exact hu.follows.trained
      · exact h.store
    · cases he
  | write written =>
    simp only [Deployment.step] at he
    split at he
    · rename_i s hp
      obtain rfl := Option.some.inj he
      obtain ⟨hs, hterm, hepoch⟩ := h.process _ hp
      have hreturns : Reached W d.started s .returning := 
        ⟨hs, fun hf => by cases hterm.symm.trans hf⟩
      refine ⟨(h.moves hreturns).process, h.store, h.published, ?_⟩
      dsimp only
      split_ifs
      · intro m hm
        obtain rfl | hm := List.mem_cons.mp hm
        · exact ⟨hs.trained, hepoch⟩
        · exact h.models m hm
      · exact h.models
    · cases he
  | crash =>
    obtain rfl := Option.some.inj he
    exact ⟨(by intro p hp; cases hp), h.store, h.published, h.models⟩

lemma resumes (h : Run step (Working W) (init c) d) : d.Resumes W :=
  Run.invariant (fun _ _ _ hd ha hs => Resumes.step hd ha hs) h init_resumes

lemma advance_frame {stage : Stage} (he : d.advance s stage = some e) :
    e.started = d.started ∧ e.models = d.models ∧ e.process ≠ none := by
  cases stage <;> cases he <;> exact ⟨rfl, rfl, Option.some_ne_none _⟩

lemma Fresh.step (h : d.Fresh) (ha : Uninterrupted W d a) (he : d.step a = some e) : e.Fresh := by
  obtain ⟨hstarted, hstore, hmodels⟩ := h
  cases a with
  | start restored =>
    simp only [Deployment.step] at he
    split at he
    · rename_i hp
      obtain rfl := Option.some.inj he
      refine ⟨?_, (by intro hn; cases hn), hmodels⟩
      rw [hstore hp]
      split <;> rfl
    · cases he
  | heartbeat req =>
    simp only [Deployment.step] at he
    split at he
    · rename_i s hp
      obtain rfl := Option.some.inj he
      obtain ⟨hst, hmo, hpr⟩ := serve_frame d s req
      exact Fresh.keeps ⟨hstarted, hstore, hmodels⟩ hst hmo hpr
    · cases he
  | next =>
    simp only [Deployment.step] at he
    split at he
    · obtain ⟨hst, hmo, hpr⟩ := advance_frame he
      exact Fresh.keeps ⟨hstarted, hstore, hmodels⟩ hst hmo hpr
    · cases he
  | put committed =>
    simp only [Deployment.step] at he
    split at he
    · obtain rfl := Option.some.inj he
      exact ⟨hstarted, (by intro hn; cases hn), hmodels⟩
    · cases he
  | write written =>
    simp only [Deployment.step] at he
    split at he
    · obtain rfl := Option.some.inj he
      refine ⟨hstarted, (by intro hn; cases hn), ?_⟩
      dsimp only
      split_ifs
      · intro m hm
        obtain rfl | hm := List.mem_cons.mp hm
        · exact hstarted
        · exact hmodels m hm
      · exact hmodels
    · cases he
  | crash => cases ha

lemma fresh (h : Run step (Uninterrupted W) (init c) d) : d.Fresh :=
  Run.invariant (fun _ _ _ hd ha hs => Fresh.step hd ha hs) h ⟨rfl, fun _ => rfl, fun _ hm => by cases hm⟩

/-- The model written in a run with crashes is that of the run without, and reflects `maxEpochs` steps, just
when the process that wrote it had started at an earlier epoch than the last. -/
theorem written_model_iff (W : Workforce c) {d₀ d : Deployment c}
    (h₀ : Run step (Uninterrupted W) (init c) d₀) (h : Run step (Working W) (init c) d)
    {m₀ m : Model c} (hm₀ : m₀ ∈ d₀.models) (hm : m ∈ d.models) :
    (m.weights = m₀.weights ∧ m.epoch = m₀.epoch ∧ m.epoch = c.maxEpochs ∧
      m.weights = W.next^[c.maxEpochs] fun _ => 0) ↔ m.started < c.maxEpochs := by
  obtain ⟨hweights, hepoch⟩ := (resumes h).models m hm
  obtain ⟨hweights₀, hepoch₀⟩ := (resumes (h₀.mono fun _ _ ha => ha.working)).models m₀ hm₀
  have hzero : m₀.started = 0 := (fresh h₀).2.2 m₀ hm₀
  constructor
  · rintro ⟨-, -, hlast, -⟩
    exact hepoch.mp hlast
  · intro hlt
    have hlast : m.epoch = c.maxEpochs := hepoch.mpr hlt
    have hlast₀ : m₀.epoch = c.maxEpochs := hepoch₀.mpr (hzero ▸ Nat.zero_lt_of_lt hlt)
    refine ⟨?_, hlast.trans hlast₀.symm, hlast, ?_⟩
    · rw [hweights, hweights₀, hlast, hlast₀]
    · rw [hweights, hlast, Workforce.weights]

end

instance [DecidableEq F] (W : Workforce c) (d : Deployment c) (a : Act F) : Decidable (Working W d a) :=
  match a with
  | .heartbeat req =>
    inferInstanceAs (Decidable (∀ p ∈ d.process, W.InOrder p.1 req ∧ W.Honest d.published p.1 req))
  | .start _ | .next | .put _ | .write _ | .crash => isTrue trivial

instance [DecidableEq F] (W : Workforce c) (d : Deployment c) (a : Act F) :
    Decidable (Uninterrupted W d a) :=
  match a with
  | .crash => isFalse id
  | .start restored => inferInstanceAs (Decidable (Working W d (.start restored)))
  | .heartbeat req => inferInstanceAs (Decidable (Working W d (.heartbeat req)))
  | .next => inferInstanceAs (Decidable (Working W d .next))
  | .put committed => inferInstanceAs (Decidable (Working W d (.put committed)))
  | .write written => inferInstanceAs (Decidable (Working W d (.write written)))

/-- One worker, one epoch. -/
def oneEpoch : Config ℤ := ⟨1, 2, 1, ["shard_0.csv"], 1, true⟩

def alone : Workforce oneEpoch where
  order := ["1"]
  nodup := by decide
  complete := rfl
  gradient _ w := (fun j => w j - 4, 1)

def trains (e : ℕ) (w : ℤ) : List (Act ℤ) :=
  [.heartbeat ⟨"1", false, -1, [], 0⟩, .heartbeat ⟨"1", true, e, [w - 4], 1⟩, .next, .next, .next,
    .put true, .next]

def uninterrupted : List (Act ℤ) := .start false :: trains 0 0 ++ [.write true]

/-- The crash comes after the checkpoint of the last epoch, before the model is written. -/
def interrupted : List (Act ℤ) :=
  .start false :: trains 0 0 ++ [.crash, .start true] ++ trains 1 8 ++ [.write true]

/-- The crash comes before that checkpoint. -/
def repeatedEpoch : List (Act ℤ) :=
  .start false :: (trains 0 0).take 5 ++ [.crash, .start true] ++ trains 0 0 ++ [.write true]

lemma uninterrupted_run : ∃ d, Run step (Uninterrupted alone) (init oneEpoch) d ∧
    ∃ m ∈ d.models, m.epoch = 1 ∧ ∀ j, m.weights j = 8 := by
  obtain ⟨d, hd, hp⟩ := Run.exists_of_execute (guarded step (Uninterrupted alone)) (init oneEpoch)
    uninterrupted (fun d => ∃ m ∈ d.models, m.epoch = 1 ∧ ∀ j, m.weights j = 8) (by decide +kernel)
  exact ⟨d, hd.of_guarded, hp⟩

theorem written_model_repeated_epoch : ∃ m₀ m : Model oneEpoch, m.weights = m₀.weights ∧ m.epoch = 1 := by
  obtain ⟨d₀, h₀, m₀, hm₀, -⟩ := uninterrupted_run
  obtain ⟨d, hd, m, hm, hstarted⟩ := Run.exists_of_execute (guarded step (Working alone)) (init oneEpoch)
    repeatedEpoch (fun d => ∃ m ∈ d.models, m.started = 0) (by decide +kernel)
  have hstart : m.started < oneEpoch.maxEpochs := hstarted ▸ Nat.zero_lt_one
  obtain ⟨hweights, -, hepoch, -⟩ := (written_model_iff alone h₀ hd.of_guarded hm₀ hm).mpr hstart
  exact ⟨m₀, m, hweights, hepoch⟩

theorem restored_last_epoch_steps_again : ∃ (d₀ d : Deployment oneEpoch) (m₀ m : Model oneEpoch),
    Run step (Uninterrupted alone) (init oneEpoch) d₀ ∧ Run step (Working alone) (init oneEpoch) d ∧
      m₀ ∈ d₀.models ∧ m ∈ d.models ∧ m₀.epoch = 1 ∧ m.epoch = 2 ∧ m.weights ≠ m₀.weights := by
  obtain ⟨d₀, h₀, m₀, hm₀, he₀, hw₀⟩ := uninterrupted_run
  obtain ⟨d, hd, m, hm, he, hw⟩ := Run.exists_of_execute (guarded step (Working alone)) (init oneEpoch)
    interrupted (fun d => ∃ m ∈ d.models, m.epoch = 2 ∧ ∀ j, m.weights j = 0) (by decide +kernel)
  refine ⟨d₀, d, m₀, m, h₀, hd.of_guarded, hm₀, hm, he₀, he, ?_⟩
  intro hsame
  have hzero : (0 : ℤ) = 8 := by
    rw [← hw ⟨0, Nat.zero_lt_one⟩, hsame, hw₀]
  cases hzero

end Deployment

end DistributedStorage.Training
