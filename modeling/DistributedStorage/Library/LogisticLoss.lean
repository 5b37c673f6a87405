import Mathlib

/-! The cross entropy of a logistic model, as a function of each of its weights, and gradient descent by
partial derivatives. -/

namespace DistributedStorage.Library

noncomputable section

/-- The cross entropy of the label `y` and the prediction of the score `z`. -/
def crossEntropy (y z : ℝ) : ℝ :=
  -(y * Real.log (Real.sigmoid z) + (1 - y) * Real.log (1 - Real.sigmoid z))

lemma hasDerivAt_crossEntropy (y z : ℝ) : HasDerivAt (crossEntropy y) (Real.sigmoid z - y) z := by
  have hpos := Real.sigmoid_pos z
  have hlt : 0 < 1 - Real.sigmoid z := sub_pos.mpr (Real.sigmoid_lt_one z)
  have hs := Real.hasDerivAt_sigmoid z
  have hleft := (hs.log hpos.ne').const_mul y
  have hright := ((hs.const_sub 1).log hlt.ne').const_mul (1 - y)
  refine (hleft.add hright).neg.congr_deriv ?_
  field_simp
  ring

variable {ι : Type*} [Fintype ι] [DecidableEq ι]

def score (w x : ι → ℝ) : ℝ := ∑ i, w i * x i

lemma hasDerivAt_score (w x : ι → ℝ) (j : ι) :
    HasDerivAt (fun t => score (Function.update w j t) x) (x j) (w j) := by
  have hterm : ∀ i ∈ Finset.univ,
      HasDerivAt (fun t => Function.update w j t i * x i) ((Pi.single j (1 : ℝ) : ι → ℝ) i * x i) (w j) := by
    intro i _
    exact (hasDerivAt_pi.mp (hasDerivAt_update w j (w j)) i).mul_const (x i)
  refine (HasDerivAt.fun_sum hterm).congr_deriv ?_
  simp [Pi.single_apply]

/-- The mean loss over samples of features and a label. -/
def meanLoss (samples : List ((ι → ℝ) × ℝ)) (w : ι → ℝ) : ℝ :=
  (samples.map fun s => crossEntropy s.2 (score w s.1)).sum / samples.length

lemma hasDerivAt_sumLoss (samples : List ((ι → ℝ) × ℝ)) (w : ι → ℝ) (j : ι) :
    HasDerivAt (fun t => (samples.map fun s => crossEntropy s.2 (score (Function.update w j t) s.1)).sum)
      (samples.map fun s => (Real.sigmoid (score w s.1) - s.2) * s.1 j).sum (w j) := by
  induction samples with
  | nil => exact hasDerivAt_const _ _
  | cons s samples ih =>
    simp only [List.map_cons, List.sum_cons]
    apply HasDerivAt.add _ ih
    have hcross := hasDerivAt_crossEntropy s.2 (score (Function.update w j (w j)) s.1)
    have hcomp := hcross.comp (w j) (hasDerivAt_score w s.1 j)
    rwa [Function.update_eq_self] at hcomp

/-- The partial derivative of the mean loss is the mean of the errors times the feature. -/
lemma hasDerivAt_meanLoss (samples : List ((ι → ℝ) × ℝ)) (w : ι → ℝ) (j : ι) :
    HasDerivAt (fun t => meanLoss samples (Function.update w j t))
      ((samples.map fun s => (Real.sigmoid (score w s.1) - s.2) * s.1 j).sum / samples.length) (w j) :=
  (hasDerivAt_sumLoss samples w j).div_const _

/-- One step of gradient descent. -/
def descentStep (lr : ℝ) (f : (ι → ℝ) → ℝ) (w : ι → ℝ) : ι → ℝ :=
  fun j => w j - lr * deriv (fun t => f (Function.update w j t)) (w j)

lemma descentStep_meanLoss (lr : ℝ) (samples : List ((ι → ℝ) × ℝ)) (w : ι → ℝ) (j : ι) :
    descentStep lr (meanLoss samples) w j = w j - lr *
      ((samples.map fun s => (Real.sigmoid (score w s.1) - s.2) * s.1 j).sum / samples.length) := by
  rw [descentStep, (hasDerivAt_meanLoss samples w j).deriv]

end

end DistributedStorage.Library
