import Mathlib.Tactic
import WideDeep.Proofs.ExactRounding
import WideDeep.Proofs.FloatBits

/-!
# Stored numbers are read back

Single precision numbers pass through double precision unchanged, and the bits of a stored number
give the number back. The sign that is stored with a not-a-number is the only thing that is lost.
-/

namespace WideDeep.Proofs
open Binary

/-- Widening a single is exact: rounding it again gives the single back. -/
theorem narrow_widen (x : Float32) : narrow (widen x) = x := by
  rcases single_cases x with rfl | ⟨s, p, hp, rfl⟩
  · decide
  · by_cases hinf : p = single.infinity
    · subst hinf
      cases s <;> decide
    · have hlt : p < single.infinity := lt_of_le_of_ne hp hinf
      obtain ⟨m, e, hparts, hnormal, hpat⟩ := parts_normal single (by decide) p hlt
      have hrange := exponent_range_single hnormal (by rw [hpat]; exact hlt)
      obtain ⟨M, E, hNormal, hPat, hvalue⟩ := double_of_dyadic
        (hnormal.bound.trans (by decide)) (by omega) hrange.2
      have hshape : shape32 (singleOfPattern s p) = .finite s m e := by
        rw [shape32_singleOfPattern s hp, Format.shape, hparts]
      have hwide : widen (singleOfPattern s p) = doubleOfPattern s (patternOf double M E) := by
        obtain ⟨hden, hratio⟩ := dyadic_value m e
        rw [← hvalue] at hratio
        have hnear := nearest_exact double (by decide) hNormal hden hratio hPat
        simp only [widen, hshape, nearestDouble, hnear]
      have hshape' : shape (doubleOfPattern s (patternOf double M E)) = .finite s M E := by
        rw [shape_doubleOfPattern s hPat.le, Format.shape, parts_patternOf double (by decide) hNormal hPat]
      obtain ⟨hden, hratio⟩ := dyadic_value M E
      rw [hvalue] at hratio
      have hnear := nearest_exact single (by decide) hnormal hden hratio (by rw [hpat]; exact hlt)
      rw [hwide]
      simp only [narrow, hshape', nearestSingle, hnear, hpat]

/-- A widened single is a not-a-number only if the single is. -/
lemma eq_nan32_of_isNaN {x : Float32} (h : isNaN (widen x) = true) : x = nan32 := by
  have hnan := eq_nan_of_isNaN h
  rw [← narrow_widen x, hnan]
  decide

/-- The bits of a stored double give its value back. -/
theorem ofBits_bits64 (x : Stored Float) : Float.ofBits (UInt64.ofNat x.bits64) = x.value := by
  unfold Stored.bits64 Stored.nanSign
  by_cases h : (isNaN x.value && x.negativeNan) = true
  · rw [if_pos h]
    have hnan := eq_nan_of_isNaN (Bool.and_eq_true_iff.mp h).1
    rw [hnan]
    decide
  · rw [if_neg h, Nat.zero_add, UInt64.ofNat_toNat, Float.ofBits_toBits]

/-- The bits of a stored single give its value back. -/
theorem ofBits_bits32 (x : Stored Float32) : Float32.ofBits (UInt32.ofNat x.bits32) = x.value := by
  unfold Stored.bits32 Stored.nanSign
  by_cases h : (isNaN (widen x.value) && x.negativeNan) = true
  · rw [if_pos h]
    have hnan := eq_nan32_of_isNaN (Bool.and_eq_true_iff.mp h).1
    rw [hnan]
    decide
  · rw [if_neg h, Nat.zero_add, UInt32.ofNat_toNat, Float32.ofBits_toBits]

lemma bits64_lt (x : Stored Float) : x.bits64 < 256 ^ 8 := by
  have hbits := x.value.toBits.toNat_lt
  unfold Stored.bits64 Stored.nanSign
  by_cases h : (isNaN x.value && x.negativeNan) = true
  · rw [if_pos h]
    have hnan := eq_nan_of_isNaN (Bool.and_eq_true_iff.mp h).1
    rw [hnan]
    decide
  · rw [if_neg h]
    omega

lemma bits32_lt (x : Stored Float32) : x.bits32 < 256 ^ 4 := by
  have hbits := x.value.toBits.toNat_lt
  unfold Stored.bits32 Stored.nanSign
  by_cases h : (isNaN (widen x.value) && x.negativeNan) = true
  · rw [if_pos h]
    have hnan := eq_nan32_of_isNaN (Bool.and_eq_true_iff.mp h).1
    rw [hnan]
    decide
  · rw [if_neg h]
    omega

end WideDeep.Proofs
