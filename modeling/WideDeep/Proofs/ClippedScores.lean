import Mathlib.Tactic
import WideDeep.Normalization
import WideDeep.Proofs.ExactSums

/-!
# Clipped scores

Computed exactly, the z-score of a value is its distance from the mean in units of the deviation,
clipped into the cutoff. It lies within the cutoff, is zero at the mean, follows the order of the
values or reverses it as the deviation has its sign, and changes its sign when the value is mirrored at
the mean.
-/

namespace WideDeep.Proofs
open Binary

section Clipping

variable {c z w : ℚ}

/-- A number clipped into a cutoff. -/
def clipped (c z : ℚ) : ℚ :=
  min (max z (-c)) c

lemma clipped_mem (hc : 0 ≤ c) (z : ℚ) : clipped c z ∈ Set.Icc (-c) c := by
  refine ⟨le_min (le_max_right z (-c)) ?_, min_le_right _ _⟩
  linarith

lemma clipped_of_mem (h : z ∈ Set.Icc (-c) c) : clipped c z = z := by
  unfold clipped
  rw [max_eq_left h.1, min_eq_left h.2]

lemma clipped_zero (hc : 0 ≤ c) : clipped c 0 = 0 :=
  clipped_of_mem ⟨neg_nonpos.mpr hc, hc⟩

lemma clipped_mono (h : z ≤ w) : clipped c z ≤ clipped c w :=
  min_le_min_right c (max_le_max_right (-c) h)

lemma clipped_neg (hc : 0 ≤ c) (z : ℚ) : clipped c (-z) = -clipped c z := by
  have hsides : -c ≤ c := by linarith
  calc min (max (-z) (-c)) c = -max (min z c) (-c) := by
        rw [max_neg_neg, ← min_neg_neg, neg_neg]
    _ = -min (max z (-c)) (max c (-c)) := by rw [max_min_distrib_right]
    _ = -clipped c z := by rw [max_eq_left hsides, clipped]

end Clipping

section Distances

variable {tiny mean stddev x y : ℚ}

/-- The distance of a value from the mean in units of the deviation; none if there is hardly any
deviation. -/
def distance (tiny mean stddev x : ℚ) : ℚ :=
  if tiny < |stddev| then (x - mean) / stddev else 0

lemma distance_mean : distance tiny mean stddev mean = 0 := by
  simp [distance]

lemma distance_tiny (h : |stddev| ≤ tiny) : distance tiny mean stddev x = 0 :=
  if_neg (not_lt.mpr h)

lemma distance_mono (h : 0 < stddev) (hxy : x ≤ y) :
    distance tiny mean stddev x ≤ distance tiny mean stddev y := by
  unfold distance
  split_ifs
  · gcongr
  · exact le_rfl

lemma distance_anti (h : stddev < 0) (hxy : x ≤ y) :
    distance tiny mean stddev y ≤ distance tiny mean stddev x := by
  unfold distance
  split_ifs
  · exact div_le_div_of_nonpos_of_le h.le (by linarith)
  · exact le_rfl

lemma distance_mirrored :
    distance tiny mean stddev (2 * mean - x) = -distance tiny mean stddev x := by
  unfold distance
  split_ifs
  · ring
  · exact neg_zero.symm

end Distances

section Scores

lemma magnitude_eq_abs (x : ℚ) : Zscore.magnitude x = |x| := by
  unfold Zscore.magnitude
  split_ifs with h
  · rw [abs_of_nonpos h, zero_sub]
  · rw [abs_of_pos (not_le.mp h)]

/-- A z-score is a clipped distance. -/
theorem compute_eq_clipped (tiny x mean stddev c : ℚ) :
    Zscore.compute tiny x mean stddev c = clipped c (distance tiny mean stddev x) := by
  unfold Zscore.compute clipped distance
  rw [magnitude_eq_abs, min_comm, min_def_lt, max_def_lt]

/-- Below this a deviation counts as none. -/
def leastDeviation : ℚ :=
  rationalOf Zscore.tiny

/-- The cutoff in force, computed exactly. -/
def exactCutoff (c : Option ℚ) : ℚ :=
  Zscore.cutoff (rationalOf Zscore.defaultCutoff) c

/-- The z-score of a value under a cutoff, computed exactly. -/
def exactScore (c : Option ℚ) (mean stddev x : ℚ) : ℚ :=
  Zscore.compute leastDeviation x mean stddev (exactCutoff c)

lemma exactCutoff_eq (c : Option ℚ) : exactCutoff c = (c.map abs).getD 4 := by
  cases c with
  | none =>
    have hshape : shape Zscore.defaultCutoff = .finite false (2 ^ 52) (-50) := by decide +kernel
    unfold exactCutoff Zscore.cutoff rationalOf
    rw [hshape]
    norm_num
  | some a => exact magnitude_eq_abs a

lemma exactCutoff_nonneg (c : Option ℚ) : 0 ≤ exactCutoff c := by
  rw [exactCutoff_eq]
  cases c with
  | none => norm_num
  | some a => exact abs_nonneg a

/-- Whatever the mean, the deviation and the cutoff are, a z-score lies within the magnitude of the
cutoff. It is zero at the mean and where there is hardly any deviation, and else the distance itself if
that lies within the cutoff. It rises with the value for a positive deviation and falls for a negative
one, and values mirrored at the mean have opposite scores. -/
theorem zscore_clipped (c : Option ℚ) (mean stddev : ℚ) {x y : ℚ} (hxy : x ≤ y) :
    exactCutoff c = (c.map abs).getD 4 ∧
    exactScore c mean stddev x ∈ Set.Icc (-exactCutoff c) (exactCutoff c) ∧
    exactScore c mean stddev mean = 0 ∧
    (|stddev| ≤ leastDeviation → exactScore c mean stddev x = 0) ∧
    (leastDeviation < |stddev| →
      (x - mean) / stddev ∈ Set.Icc (-exactCutoff c) (exactCutoff c) →
      exactScore c mean stddev x = (x - mean) / stddev) ∧
    (0 < stddev → exactScore c mean stddev x ≤ exactScore c mean stddev y) ∧
    (stddev < 0 → exactScore c mean stddev y ≤ exactScore c mean stddev x) ∧
    exactScore c mean stddev (2 * mean - x) = -exactScore c mean stddev x := by
  have hc := exactCutoff_nonneg c
  unfold exactScore
  simp only [compute_eq_clipped]
  refine ⟨exactCutoff_eq c, clipped_mem hc _, ?_, ?_, ?_, ?_, ?_, ?_⟩
  · rw [distance_mean, clipped_zero hc]
  · intro htiny
    rw [distance_tiny htiny, clipped_zero hc]
  · intro hlarge hwithin
    have hdistance : distance leastDeviation mean stddev x = (x - mean) / stddev := if_pos hlarge
    rw [hdistance, clipped_of_mem hwithin]
  · exact fun hpos => clipped_mono (distance_mono hpos hxy)
  · exact fun hneg => clipped_mono (distance_anti hneg hxy)
  · rw [distance_mirrored, clipped_neg hc]

end Scores

section Sample

lemma leastDeviation_lt_one : leastDeviation < 1 := by
  have hshape : shape Zscore.tiny = .finite false 4722366482869645 (-72) := by decide +kernel
  unfold leastDeviation rationalOf
  rw [hshape]
  norm_num

/-- Under a cutoff given as minus three and with a deviation of minus two, nine is half a deviation from
ten, eleven is as far on the other side, and twenty scores no more than nine. -/
theorem zscore_clipped_falling :
    exactScore (some (-3)) 10 (-2) 9 = 1 / 2 ∧ exactScore (some (-3)) 10 (-2) 11 = -(1 / 2) ∧
    exactScore (some (-3)) 10 (-2) 20 ≤ 1 / 2 := by
  obtain ⟨hcutoff, -, -, -, hexact, -, hfalling, hmirrored⟩ :=
    zscore_clipped (some (-3)) 10 (-2) (x := 9) (y := 20) (by norm_num)
  have hlarge : leastDeviation < |(-2 : ℚ)| := by
    have hone := leastDeviation_lt_one
    norm_num
    linarith
  have hnine : exactScore (some (-3)) 10 (-2) 9 = 1 / 2 := by
    rw [hexact hlarge]
    · norm_num
    · rw [hcutoff]
      norm_num
  refine ⟨hnine, ?_, ?_⟩
  · rw [← hnine, ← hmirrored]
    norm_num
  · rw [← hnine]
    exact hfalling (by norm_num)

end Sample

end WideDeep.Proofs
