import DistributedStorage.Library.Runs
import Mathlib.Data.Finset.Insert

/-! Progress a machine can always make: a state it can reach by allowed steps, found one stage after the
other, by a rank that goes down, or task by task. -/

namespace DistributedStorage.Library.Runs

variable {S E α : Type*} {step : S → E → Option S} {C : S → E → Prop}

/-- Some run from `s` ends in a state of `Q`. -/
def CanReach (step : S → E → Option S) (C : S → E → Prop) (Q : S → Prop) (s : S) : Prop :=
  ∃ t, Run step C s t ∧ Q t

variable {s t : S} {I Q R : S → Prop}

lemma CanReach.now (h : Q s) : CanReach step C Q s := ⟨s, Run.refl, h⟩

lemma CanReach.after (h : Run step C s t) (k : CanReach step C Q t) : CanReach step C Q s := by
  obtain ⟨u, hu, hq⟩ := k
  exact ⟨u, h.trans hu, hq⟩

lemma CanReach.next (h : CanReach step C Q s) (k : ∀ t, Q t → CanReach step C R t) :
    CanReach step C R s := by
  obtain ⟨t, ht, hq⟩ := h
  exact (k t hq).after ht

lemma CanReach.mono (h : CanReach step C Q s) (k : ∀ t, Q t → R t) : CanReach step C R s :=
  h.next fun t hq => .now (k t hq)

/-- A stage that is reached or lowers the rank is reached. -/
lemma CanReach.ranked (rank : S → ℕ)
    (h : ∀ s, I s → CanReach step C (fun t => Q t ∨ (I t ∧ rank t < rank s)) s) (hi : I s) :
    CanReach step C Q s := by
  induction hn : rank s using Nat.strong_induction_on generalizing s with
  | _ n ih =>
    refine (h s hi).next fun t ht => ?_
    rcases ht with hq | ⟨hit, hlt⟩
    · exact .now hq
    · exact ih (rank t) (hn ▸ hlt) hit rfl

/-- Tasks that can be done in any order, each keeping what is done, can all be done. -/
lemma CanReach.each [DecidableEq α] {done : α → S → Prop} (F : Finset α)
    (h : ∀ x ∈ F, ∀ s, I s →
      CanReach step C (fun t => I t ∧ done x t ∧ ∀ y, done y s → done y t) s)
    (hi : I s) : CanReach step C (fun t => I t ∧ ∀ x ∈ F, done x t) s := by
  induction F using Finset.induction_on with
  | empty => exact .now ⟨hi, fun x hx => absurd hx (Finset.notMem_empty x)⟩
  | insert a F _ ih =>
    have hF : CanReach step C (fun t => I t ∧ ∀ x ∈ F, done x t) s :=
      ih fun x hx => h x (Finset.mem_insert_of_mem hx)
    refine hF.next fun t ht => (h a (Finset.mem_insert_self a F) t ht.1).mono ?_
    rintro u ⟨hiu, ha, hkeep⟩
    refine ⟨hiu, fun x hx => ?_⟩
    rcases Finset.mem_insert.mp hx with rfl | hx
    · exact ha
    · exact hkeep x (ht.2 x hx)

end DistributedStorage.Library.Runs
