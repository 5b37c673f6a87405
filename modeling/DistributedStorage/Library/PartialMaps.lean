import Mathlib.Logic.Function.Basic

/-! Partial maps, as functions to `Option`, with the value at one place set or taken out. -/

namespace DistributedStorage.Library

variable {α β : Type*} [DecidableEq α] {g : α → Option β} {a b : α} {x y : β}

lemma of_update_none (h : Function.update g a none b = some y) : b ≠ a ∧ g b = some y := by
  by_cases hb : b = a
  · rw [hb, Function.update_self] at h
    cases h
  · rw [Function.update_of_ne hb] at h
    exact ⟨hb, h⟩

lemma of_update_some (h : Function.update g a (some x) b = some y) : b = a ∧ y = x ∨ b ≠ a ∧ g b = some y := by
  by_cases hb : b = a
  · rw [hb, Function.update_self] at h
    exact .inl ⟨hb, (Option.some.inj h).symm⟩
  · rw [Function.update_of_ne hb] at h
    exact .inr ⟨hb, h⟩

end DistributedStorage.Library
