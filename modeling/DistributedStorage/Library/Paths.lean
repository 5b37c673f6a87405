import DistributedStorage.Library.Runs
import Mathlib.Data.Nat.Find

/-! The states of a run, one after the other. -/

namespace DistributedStorage.Library.Runs

variable {S E : Type*} {step : S → E → Option S} {C : S → E → Prop} {s t : S}

/-- `σ` is a run of `n` steps. -/
structure Path (step : S → E → Option S) (C : S → E → Prop) (s t : S) (n : ℕ) (σ : ℕ → S) : Prop where
  first : σ 0 = s
  last : σ n = t
  moves : ∀ k < n, Allowed step C (σ k) (σ (k + 1))

lemma Run.path (h : Run step C s t) : ∃ n σ, Path step C s t n σ := by
  induction h with
  | refl => exact ⟨0, fun _ => s, rfl, rfl, fun k hk => absurd hk (Nat.not_lt_zero k)⟩
  | @tail u v _ hstep ih =>
    obtain ⟨n, σ, hσ⟩ := ih
    refine ⟨n + 1, fun k => if k ≤ n then σ k else v, ?_, ?_, fun k hk => ?_⟩
    · rw [if_pos n.zero_le]
      exact hσ.first
    · rw [if_neg (Nat.not_succ_le_self n)]
    · rw [if_pos (Nat.le_of_lt_succ hk)]
      by_cases hlt : k < n
      · rw [if_pos (Nat.succ_le_of_lt hlt)]
        exact hσ.moves k hlt
      · obtain rfl : k = n := Nat.le_antisymm (Nat.le_of_lt_succ hk) (Nat.le_of_not_lt hlt)
        rw [if_neg (Nat.not_succ_le_self k), hσ.last]
        exact hstep

variable {n : ℕ} {σ : ℕ → S}

lemma Path.run (h : Path step C s t n σ) {k l : ℕ} (hkl : k ≤ l) (hl : l ≤ n) : Run step C (σ k) (σ l) := by
  induction l, hkl using Nat.le_induction with
  | base => exact Run.refl
  | succ l _ ih => exact (ih (Nat.le_of_succ_le hl)).trans (Relation.ReflTransGen.single (h.moves l hl))

lemma Path.upto (h : Path step C s t n σ) {k : ℕ} (hk : k ≤ n) : Run step C s (σ k) := by
  have hrun := h.run k.zero_le hk
  rwa [h.first] at hrun

lemma Path.onto (h : Path step C s t n σ) {k : ℕ} (hk : k ≤ n) : Run step C (σ k) t := by
  have hrun := h.run hk le_rfl
  rwa [h.last] at hrun

/-- What does not hold at first and holds in the end comes about in one of the steps. -/
lemma Path.becomes (h : Path step C s t n σ) {P : S → Prop} (hs : ¬ P s) (ht : P t) :
    ∃ k < n, ¬ P (σ k) ∧ P (σ (k + 1)) := by
  classical
  have hex : ∃ k, P (σ k) := ⟨n, h.last.symm ▸ ht⟩
  have hpos : Nat.find hex ≠ 0 := by
    intro h0
    have hfind := Nat.find_spec hex
    rw [h0, h.first] at hfind
    exact hs hfind
  obtain ⟨k, hk⟩ := Nat.exists_eq_succ_of_ne_zero hpos
  have hle : Nat.find hex ≤ n := Nat.find_min' hex (h.last.symm ▸ ht)
  refine ⟨k, by omega, Nat.find_min hex (by omega), ?_⟩
  have hfind := Nat.find_spec hex
  rwa [hk] at hfind

/-- A record that grows by one entry at a time has been each of its beginnings. -/
lemma Path.beginning {X : Type*} (h : Path step C s t n σ) {f : S → List X} (hs : f s = [])
    (hgrow : ∀ u v, Allowed step C u v → f v = f u ∨ ∃ x, f v = f u ++ [x]) {p : List X} (hp : p <+: f t) :
    ∃ k ≤ n, f (σ k) = p := by
  have hshorter : ∀ k ≤ n, f (σ k) <+: f t := by
    intro k hk
    refine Nat.decreasingInduction' (P := fun k => f (σ k) <+: f t) (fun l hl _ ih => ?_) hk
      (h.last ▸ List.prefix_rfl)
    rcases hgrow _ _ (h.moves l hl) with heq | ⟨x, heq⟩
    · exact heq ▸ ih
    · exact (List.prefix_append _ [x]).trans (heq ▸ ih)
  cases hlen : p.length with
  | zero => exact ⟨0, n.zero_le, by rw [h.first, hs, List.eq_nil_of_length_eq_zero hlen]⟩
  | succ m =>
    obtain ⟨k, hk, hbefore, hafter⟩ := h.becomes (P := fun u => p.length ≤ (f u).length) (by simp [hs, hlen])
      hp.length_le
    refine ⟨k + 1, hk, (List.prefix_of_prefix_length_le (hshorter (k + 1) hk) hp ?_).eq_of_length_le hafter⟩
    rcases hgrow _ _ (h.moves k hk) with heq | ⟨x, heq⟩
    · exact (hbefore (heq ▸ hafter)).elim
    · rw [heq, List.length_append, List.length_singleton]
      omega

end DistributedStorage.Library.Runs
