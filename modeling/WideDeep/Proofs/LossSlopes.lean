import Mathlib
import WideDeep.Model.Gradient
import WideDeep.Proofs.ExactSums

/-!
# Slopes of the loss and of activations

Over the real numbers the slope of the loss is its derivative by the logit, and what an activation does
to a derivative is multiplication with its own. Activations with a kink have none there.
-/

namespace WideDeep.Proofs

noncomputable instance : Scalar ℝ where
  exp := Real.exp
  logOnePlus x := Real.log (1 + x)
  tanh := Real.tanh
  sqrt := Real.sqrt
  less x y := decide (x < y)
  atMost x y := decide (x ≤ y)
  ofDouble x := rationalOf x
  holds _ := true

instance : ExactSum ℝ where
  add_assoc := add_assoc
  add_comm := add_comm
  zero_add := zero_add

lemma sigmoid_real (x : ℝ) : sigmoid x = 1 / (1 + Real.exp (-x)) := rfl

lemma hasDerivAt_tanh (x : ℝ) : HasDerivAt Real.tanh (1 - Real.tanh x * Real.tanh x) x := by
  have hcosh : Real.cosh x ≠ 0 := (Real.cosh_pos x).ne'
  have hquotient := (Real.hasDerivAt_sinh x).div (Real.hasDerivAt_cosh x) hcosh
  have htanh : Real.tanh = Real.sinh / Real.cosh := by
    funext y
    exact Real.tanh_eq_sinh_div_cosh y
  rw [htanh]
  refine hquotient.congr_deriv ?_
  simp only [Pi.div_apply]
  field_simp

lemma hasDerivAt_sigmoid (x : ℝ) :
    HasDerivAt (sigmoid : ℝ → ℝ) ((1 - sigmoid x) * sigmoid x) x := by
  have hpositive : 0 < 1 + Real.exp (-x) := by positivity
  have hsum : HasDerivAt (fun y => 1 + Real.exp (-y)) (-Real.exp (-x)) x :=
    ((hasDerivAt_neg x).exp.const_add 1).congr_deriv (by ring)
  have hinverse := hsum.inv hpositive.ne'
  have hsigmoid : (sigmoid : ℝ → ℝ) = (fun y => 1 + Real.exp (-y))⁻¹ := by
    funext y
    rw [sigmoid_real, one_div]
    rfl
  rw [hsigmoid]
  refine hinverse.congr_deriv ?_
  simp only [Pi.inv_apply]
  field_simp
  ring

/-- The logarithm of a logistic value, which is written by the distance from zero. -/
lemma logSigmoid_real (x : ℝ) : Loss.logSigmoid x = -Real.log (1 + Real.exp (-x)) := by
  have hlog : ∀ y : ℝ, Real.log (1 + Real.exp (-y)) = -y + Real.log (1 + Real.exp y) := by
    intro y
    have hfactor : 1 + Real.exp (-y) = Real.exp (-y) * (1 + Real.exp y) := by
      rw [mul_add, ← Real.exp_add, neg_add_cancel, Real.exp_zero]
      ring
    rw [hfactor, Real.log_mul (Real.exp_pos _).ne' (by positivity), Real.log_exp]
  change (if decide (0 < x) = true then 0 else x) -
    Real.log (1 + Real.exp (-(if decide (x < 0) = true then -x else x))) = _
  rcases lt_trichotomy x 0 with hneg | rfl | hpos
  · simp only [not_lt.mpr hneg.le, hneg, decide_false, decide_true, Bool.false_eq_true, if_false,
      if_true]
    rw [hlog x, neg_neg]
    ring
  · simp
  · simp [hpos, not_lt.mpr hpos.le]

lemma hasDerivAt_logSigmoid (x : ℝ) :
    HasDerivAt (Loss.logSigmoid : ℝ → ℝ) (1 - sigmoid x) x := by
  have hpositive : 0 < 1 + Real.exp (-x) := by positivity
  have hsum : HasDerivAt (fun y => 1 + Real.exp (-y)) (-Real.exp (-x)) x :=
    ((hasDerivAt_neg x).exp.const_add 1).congr_deriv (by ring)
  rw [show (Loss.logSigmoid : ℝ → ℝ) = fun y => -Real.log (1 + Real.exp (-y)) from
    funext logSigmoid_real]
  refine (hsum.log hpositive.ne').neg.congr_deriv ?_
  rw [sigmoid_real]
  field_simp
  ring

/-- The slope of the loss is its derivative by the logit. -/
theorem hasDerivAt_weighted (x target weight : ℝ) :
    HasDerivAt (fun y => Loss.weighted y target weight) (Loss.slope x target weight) x := by
  have hlinear : HasDerivAt (fun y : ℝ => (1 - target) * y) (1 - target) x :=
    ((hasDerivAt_id' x).const_mul (1 - target)).congr_deriv (mul_one _)
  have hentropy : HasDerivAt (fun y => Loss.crossEntropy y target) (sigmoid x - target) x :=
    (hlinear.sub (hasDerivAt_logSigmoid x)).congr_deriv (by ring)
  exact hentropy.mul_const weight

/-- An activation has no kink at a number unless this is zero and the activation is cut there. -/
def OffKink (a : Activation) (x : ℝ) : Prop :=
  a = .relu ∨ a = .leakyRelu → x ≠ 0

lemma relu_of_neg {x : ℝ} (h : x < 0) : Activation.relu.apply x = 0 := by
  change (if decide (x < 0) = true then (0 : ℝ) else x) = 0
  simp [h]

lemma relu_of_pos {x : ℝ} (h : 0 < x) : Activation.relu.apply x = x := by
  change (if decide (x < 0) = true then (0 : ℝ) else x) = x
  simp [not_lt.mpr h.le]

lemma leakyRelu_of_neg {x : ℝ} (h : x < 0) :
    Activation.leakyRelu.apply x = Activation.leak * x := by
  change (if decide (0 < x) = true then x else Activation.leak * x) = Activation.leak * x
  simp [not_lt.mpr h.le]

lemma leakyRelu_of_pos {x : ℝ} (h : 0 < x) : Activation.leakyRelu.apply x = x := by
  change (if decide (0 < x) = true then x else Activation.leak * x) = x
  simp [h]

/-- On its side of the kink an activation has the derivative of the line that it follows there. -/
lemma hasDerivAt_of_side {f : ℝ → ℝ} {slope x : ℝ} {side : Set ℝ} (hside : IsOpen side)
    (hx : x ∈ side) (h : ∀ y ∈ side, f y = slope * y) : HasDerivAt f slope x := by
  have hline : HasDerivAt (fun y => slope * y) slope x :=
    ((hasDerivAt_id' x).const_mul slope).congr_deriv (mul_one _)
  exact hline.congr_of_eventuallyEq (Filter.eventually_of_mem (hside.mem_nhds hx) h)

/-- What an activation does to a derivative is multiplication with its own. -/
theorem hasDerivAt_apply {a : Activation} {x : ℝ} (h : OffKink a x) :
    HasDerivAt (a.apply : ℝ → ℝ) (a.back x (a.apply x) 1) x := by
  cases a with
  | sigmoid => exact (hasDerivAt_sigmoid x).congr_deriv (one_mul _).symm
  | tanh => exact (hasDerivAt_tanh x).congr_deriv (one_mul _).symm
  | linear => exact hasDerivAt_id x
  | relu =>
    rcases (h (Or.inl rfl)).lt_or_gt with hneg | hpos
    · have hzero := hasDerivAt_of_side isOpen_Iio hneg fun y (hy : y < 0) =>
        (relu_of_neg hy).trans (zero_mul y).symm
      refine hzero.congr_deriv ?_
      rw [relu_of_neg hneg]
      change _ = if decide ((0 : ℝ) ≤ 0) = true then (0 : ℝ) else 1
      simp
    · have hself := hasDerivAt_of_side isOpen_Ioi hpos fun y (hy : 0 < y) =>
        (relu_of_pos hy).trans (one_mul y).symm
      refine hself.congr_deriv ?_
      rw [relu_of_pos hpos]
      change _ = if decide (x ≤ 0) = true then (0 : ℝ) else 1
      simp [not_le.mpr hpos]
  | leakyRelu =>
    rcases (h (Or.inr rfl)).lt_or_gt with hneg | hpos
    · refine (hasDerivAt_of_side isOpen_Iio hneg fun y (hy : y < 0) =>
        leakyRelu_of_neg hy).congr_deriv ?_
      change _ = if decide (0 < x) = true then (1 : ℝ) else 1 * Activation.leak
      simp [not_lt.mpr hneg.le]
    · have hself := hasDerivAt_of_side isOpen_Ioi hpos fun y (hy : 0 < y) =>
        (leakyRelu_of_pos hy).trans (one_mul y).symm
      refine hself.congr_deriv ?_
      change _ = if decide (0 < x) = true then (1 : ℝ) else 1 * Activation.leak
      simp [hpos]

lemma mul_back (a : Activation) (x y g v : ℝ) : g * a.back x y v = a.back x y g * v := by
  cases a <;> simp only [Activation.back]
  · ring
  · ring
  · split <;> ring
  · split <;> ring

end WideDeep.Proofs
