import Mathlib.Logic.Relation

/-! Runs of a machine given by a partial step function. A guard says which labels a run may take in
which state. -/

namespace DistributedStorage.Library.Runs

variable {S A E : Type*}

/-- One step of `step` under a label that the guard `C` allows. -/
def Allowed (step : S → E → Option S) (C : S → E → Prop) (s t : S) : Prop :=
  ∃ e, C s e ∧ step s e = some t

/-- The steps `C` allows, one after the other. -/
def Run (step : S → E → Option S) (C : S → E → Prop) : S → S → Prop :=
  Relation.ReflTransGen (Allowed step C)

/-- The guard of runs without restriction. -/
def Free (_ : S) (_ : E) : Prop := True

variable {step : S → E → Option S} {C D : S → E → Prop} {s t u : S}

lemma Run.refl : Run step C s s := Relation.ReflTransGen.refl

lemma Run.trans (h : Run step C s t) (k : Run step C t u) : Run step C s u :=
  Relation.ReflTransGen.trans h k

lemma Run.tail {e : E} (h : Run step C s t) (hc : C t e) (he : step t e = some u) : Run step C s u :=
  Relation.ReflTransGen.tail h ⟨e, hc, he⟩

lemma Run.single {e : E} (hc : C s e) (he : step s e = some t) : Run step C s t :=
  Run.refl.tail hc he

lemma Run.mono (hcd : ∀ s e, C s e → D s e) (h : Run step C s t) : Run step D s t :=
  Relation.ReflTransGen.mono (fun _ _ ⟨e, hc, he⟩ => ⟨e, hcd _ e hc, he⟩) _ _ h

lemma Run.free (h : Run step C s t) : Run step Free s t := h.mono fun _ _ _ => trivial

/-- What holds initially and is kept by every allowed step holds at the end of a run. -/
lemma Run.invariant {I : S → Prop} (hstep : ∀ s e t, I s → C s e → step s e = some t → I t)
    (h : Run step C s t) (hi : I s) : I t := by
  induction h with
  | refl => exact hi
  | tail _ he ih =>
    obtain ⟨e, hc, hs⟩ := he
    exact hstep _ e _ ih hc hs

/-- A relation kept by every allowed step, with the reached state known to satisfy `I`. -/
lemma Run.relation {I : S → Prop} {R : S → S → Prop} (hrefl : ∀ s, R s s)
    (htrans : ∀ {s t u}, R s t → R t u → R s u)
    (hinv : ∀ s e t, I s → C s e → step s e = some t → I t)
    (hstep : ∀ s e t, I s → C s e → step s e = some t → R s t)
    (h : Run step C s t) (hi : I s) : R s t := by
  induction h with
  | refl => exact hrefl s
  | @tail b c hr he ih =>
    obtain ⟨e, hc, hs⟩ := he
    exact htrans ih (hstep _ e _ (Run.invariant hinv hr hi) hc hs)

/-- A run is matched step by step in a machine with steps `next`, along the relation `R`. -/
lemma Run.simulates {next : A → A → Prop} {R : S → A → Prop}
    (hstep : ∀ s e t a, R s a → C s e → step s e = some t →
      ∃ b, Relation.ReflTransGen next a b ∧ R t b)
    (h : Run step C s t) {a : A} (hr : R s a) : ∃ b, Relation.ReflTransGen next a b ∧ R t b := by
  induction h with
  | refl => exact ⟨a, .refl, hr⟩
  | tail _ he ih =>
    obtain ⟨e, hc, hs⟩ := he
    obtain ⟨b, hab, hb⟩ := ih
    obtain ⟨c, hbc, hc'⟩ := hstep _ e _ b hb hc hs
    exact ⟨c, hab.trans hbc, hc'⟩

/-- Executes a list of labels. -/
def execute (step : S → E → Option S) (s : S) (es : List E) : Option S :=
  es.foldlM step s

lemma Run.of_execute {es : List E} (h : execute step s es = some t) : Run step Free s t := by
  induction es generalizing s with
  | nil =>
    obtain rfl : s = t := by simpa [execute] using h
    exact Run.refl
  | cons e es ih =>
    simp only [execute, List.foldlM_cons, Option.bind_eq_bind, Option.bind_eq_some_iff] at h
    obtain ⟨u, hu, hr⟩ := h
    exact (Run.single trivial hu).trans (ih hr)

lemma Run.exists_of_execute (step : S → E → Option S) (s : S) (es : List E) (p : S → Prop)
    [DecidablePred p] (h : (execute step s es).any (fun t => p t) = true) : ∃ t, Run step Free s t ∧ p t := by
  rw [Option.any_eq_true] at h
  obtain ⟨t, ht, hp⟩ := h
  exact ⟨t, Run.of_execute ht, by simpa using hp⟩

/-- The steps of `step` that a decidable guard allows. -/
def guarded (step : S → E → Option S) (C : S → E → Prop) [∀ s e, Decidable (C s e)] (s : S) (e : E) :
    Option S :=
  if C s e then step s e else none

lemma Run.of_guarded [∀ s e, Decidable (C s e)] (h : Run (guarded step C) D s t) : Run step C s t := by
  refine Relation.ReflTransGen.mono ?_ _ _ h
  rintro a b ⟨e, -, he⟩
  simp only [guarded] at he
  split at he
  · rename_i hc
    exact ⟨e, hc, he⟩
  · cases he

section Recording

variable {O : Type*} {out : S → E → S → List O}

/-- The machine together with a record that each step adds to. -/
def recording (step : S → E → Option S) (out : S → E → S → List O) (x : S × List O) (e : E) :
    Option (S × List O) :=
  (step x.1 e).map fun t => (t, x.2 ++ out x.1 e t)

lemma recording_eq_some {x y : S × List O} {e : E} :
    recording step out x e = some y ↔ step x.1 e = some y.1 ∧ y.2 = x.2 ++ out x.1 e y.1 := by
  rw [recording, Option.map_eq_some_iff]
  constructor
  · rintro ⟨t, ht, rfl⟩
    exact ⟨ht, rfl⟩
  · rintro ⟨ht, hr⟩
    exact ⟨y.1, ht, Prod.ext rfl hr.symm⟩

lemma Run.of_recording {x y : S × List O}
    (h : Run (recording step out) (fun x e => C x.1 e) x y) : Run step C x.1 y.1 := by
  induction h with
  | refl => exact Run.refl
  | tail _ he ih =>
    obtain ⟨e, hc, hs⟩ := he
    exact ih.tail hc (recording_eq_some.mp hs).1

end Recording

end DistributedStorage.Library.Runs
