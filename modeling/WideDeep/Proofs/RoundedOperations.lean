import Mathlib
import WideDeep.Proofs.FloatBits
import WideDeep.Proofs.MonotoneRounding

/-!
# Products and quotients of doubles

The product and the quotient of two positive doubles are the doubles nearest to the exact ones.
-/

namespace WideDeep.Proofs
open Binary Float.Model.UnpackedFloat

section Guards

variable {em : ExtendedMantissa} {n d : Nat}

/-- What a mantissa with its round bit and its sticky bit tells of the ratio `n / d`. -/
def Represents (em : ExtendedMantissa) (n d : Nat) : Prop :=
  n / d = em.mantissa ∧
    match em.roundBit, em.stickyBit with
    | false, false => n % d = 0
    | false, true => n % d ≠ 0 ∧ 2 * (n % d) < d
    | true, false => 2 * (n % d) = d
    | true, true => d < 2 * (n % d)

namespace Represents

lemma exact (m : Nat) : Represents (.ofMantissaAndAccuracy m .exact) m 1 :=
  ⟨Nat.div_one m, Nat.mod_one m⟩

/-- A ratio is represented by its integer part and the accuracy of the rest. -/
lemma fraction (n d : Nat) :
    Represents (.ofMantissaAndAccuracy (n / d) (accuracyOfFraction (n % d) d)) n d := by
  unfold accuracyOfFraction
  by_cases hzero : n % d = 0
  · rw [if_pos hzero]
    exact ⟨rfl, hzero⟩
  · rw [if_neg hzero]
    cases hcompare : compare (2 * (n % d)) d with
    | lt => exact ⟨rfl, hzero, Nat.compare_eq_lt.mp hcompare⟩
    | eq => exact ⟨rfl, Nat.compare_eq_eq.mp hcompare⟩
    | gt => exact ⟨rfl, Nat.compare_eq_gt.mp hcompare⟩

/-- A mantissa shifted by one place represents the ratio in units that are twice as great. -/
lemma shiftRightOne (hd : 0 < d) (h : Represents em n d) :
    Represents em.shiftRightOne n (d * 2) := by
  obtain ⟨m, r, s⟩ := em
  obtain ⟨hfloor, hrest⟩ := h
  dsimp only at hfloor hrest
  have hlt := Nat.mod_lt n hd
  have hmod : n % (d * 2) = n % d + d * (m % 2) := by rw [Nat.mod_mul, hfloor]
  refine ⟨by rw [← Nat.div_div_eq_div_mul, hfloor]; rfl, ?_⟩
  unfold ExtendedMantissa.shiftRightOne
  dsimp only
  rw [hmod]
  rcases Nat.mod_two_eq_zero_or_one m with hm | hm <;> rw [hm] <;> cases r <;> cases s <;>
    simp at hrest ⊢ <;> omega

/-- A mantissa that is shifted further and further represents the ratio in greater and greater
units. -/
lemma shiftRight (hd : 0 < d) (h : Represents em n d) (k : Nat) :
    Represents (em >>> k) n (d * 2 ^ k) := by
  change Represents (Nat.repeat ExtendedMantissa.shiftRightOne k em) n _
  induction k with
  | zero => rwa [pow_zero, Nat.mul_one]
  | succ k ih =>
    rw [pow_succ, ← Nat.mul_assoc]
    exact ih.shiftRightOne (by positivity)

/-- The mantissa is rounded to the integer nearest to the ratio. -/
lemma roundedMantissa (hd : 0 < d) (h : Represents em n d) :
    em.roundedMantissa = roundHalfEven n d := by
  obtain ⟨m, r, s⟩ := em
  obtain ⟨hfloor, hrest⟩ := h
  dsimp only at hfloor hrest
  unfold roundHalfEven
  rw [hfloor]
  cases r <;> cases s <;> simp at hrest <;>
    simp [ExtendedMantissa.roundedMantissa, ExtendedMantissa.accuracy,
      Accuracy.roundToNearestEven] <;> split_ifs <;> omega

end Represents

end Guards

section Packing

variable {m p num den : Nat} {e : Int}

lemma toNat_packComponents {biased mantissa : Nat} (hbiased : biased < 2 ^ 11)
    (hmantissa : mantissa < 2 ^ 52) :
    (packComponents Float.Model.Format.binary64 .positive (BitVec.ofNat 11 biased)
      (BitVec.ofNat 52 mantissa)).toNat = biased * 2 ^ 52 + mantissa := by
  unfold packComponents
  rw [BitVec.toNat_append, BitVec.toNat_append, BitVec.toNat_ofNat, BitVec.toNat_ofNat,
    Nat.mod_eq_of_lt hbiased, Nat.mod_eq_of_lt hmantissa]
  have hsign : Sign.positive.toBitVec.toNat = 0 := rfl
  rw [hsign, Nat.zero_shiftLeft, Nat.zero_or, ← Nat.shiftLeft_add_eq_or_of_lt hmantissa,
    Nat.shiftLeft_eq]

/-- The bits of a positive finite number. -/
lemma toNat_pack (h : Normal double m e) (hm : 0 < m) :
    (pack Float.Model.Format.binary64 (.finite .positive m e hm)).toNat =
      min double.infinity (patternOf double m e) := by
  have hbound : m < 2 ^ 53 := h.bound
  have hlowest : -1074 ≤ e := h.lowest
  have hfull : e = -1074 ∨ 2 ^ 52 ≤ m := h.full
  have hpattern : patternOf double m e = (e + 1074).toNat * 2 ^ 52 + m := by
    unfold patternOf double
    simp
  have hinf := infinity_double
  have hbias : (e + (Float.Model.Format.binary64.exponentBias : Int) +
      (Float.Model.Format.binary64.mantissaBitsWithoutImplicit : Int)).toNat =
        (e + 1074).toNat + 1 := by
    simp [Float.Model.Format.exponentBias]
    omega
  rw [hpattern, hinf]
  unfold pack
  simp only [hbias]
  by_cases hbig : 2 ^ 11 ≤ (e + 1074).toNat + 1 + 1
  · rw [if_pos hbig, min_eq_left (by omega)]
    rfl
  · rw [if_neg hbig, min_eq_right (by omega)]
    by_cases hplaces : 2 ^ 52 ≤ m
    · have hlog : m.log2 = 52 := (Nat.log2_eq_iff hm.ne').mpr ⟨hplaces, hbound⟩
      have hlow : BitVec.ofNat 52 m = BitVec.ofNat 52 (m - 2 ^ 52) := by
        rw [← BitVec.toNat_inj, BitVec.toNat_ofNat, BitVec.toNat_ofNat]
        omega
      rw [if_pos (by rw [hlog]; rfl), hlow, toNat_packComponents (by omega) (by omega)]
      omega
    · have hsmall : m.log2 < 52 := (Nat.log2_lt hm.ne').mpr (not_le.mp hplaces)
      have hbits : Float.Model.Format.binary64.mantissaBits = 53 := rfl
      rw [if_neg (by omega)]
      have hzero : (0#11) = BitVec.ofNat 11 0 := rfl
      rw [hzero, toNat_packComponents (by omega) (not_le.mp hplaces)]
      omega

lemma targetExponent_eq (m : Nat) (e : Int) :
    Float.Model.Format.binary64.targetExponent (Float.Model.totalExponent m e) =
      max ((m.log2 : Int) + e - 52) (-1074) := by
  have hleast : Float.Model.Format.binary64.minExponent = -1074 := rfl
  have hbits : (Float.Model.Format.binary64.mantissaBits : Int) = 53 := rfl
  unfold Float.Model.Format.targetExponent Float.Model.totalExponent
  rw [hleast, hbits]
  congr 1
  omega

/-- A mantissa that fits is not shifted. -/
lemma shift_fitting (hm : m < 2 ^ 53) (he : -1074 ≤ e) :
    shiftToTargetExponent Float.Model.Format.binary64 m e .exact = (⟨m, false, false⟩, e) := by
  have hlog : m.log2 ≤ 52 := by
    by_cases hzero : m = 0
    · simp [hzero]
    · exact Nat.le_of_lt_succ ((Nat.log2_lt hzero).mpr hm)
  have hshift : (max ((m.log2 : Int) + e - 52) (-1074) - e).toNat = 0 := by omega
  unfold shiftToTargetExponent shiftToExponent
  dsimp only
  rw [targetExponent_eq, hshift, Nat.cast_zero, add_zero]
  rfl

/-- A mantissa with a carry is shifted by one place. -/
lemma shift_carried (he : -1074 ≤ e) :
    shiftToTargetExponent Float.Model.Format.binary64 (2 ^ 53) e .exact =
      (⟨2 ^ 52, false, false⟩, e + 1) := by
  have hshift : (max (((2 ^ 53 : Nat).log2 : Int) + e - 52) (-1074) - e).toNat = 1 := by
    rw [Nat.log2_two_pow]
    omega
  unfold shiftToTargetExponent shiftToExponent
  dsimp only
  rw [targetExponent_eq, hshift]
  rfl

/-- The exponent to which a mantissa is shifted is the last place of the number. -/
lemma lastPlace_eq {n d : Nat} (hd : 0 < d) (hmantissa : n / d = m)
    (hplaces : e ≤ -1074 ∨ 2 ^ 52 ≤ m) (hnum : num ≠ 0) (hden : den ≠ 0)
    (hvalue : (num : ℚ) / den = n / d * 2 ^ e) :
    max ((m.log2 : Int) + e - 52) (-1074) = lastPlace double num den := by
  have hdq : (0 : ℚ) < d := by exact_mod_cast hd
  have hdenq : (0 : ℚ) < den := by exact_mod_cast Nat.pos_of_ne_zero hden
  have hbelow : (n : ℚ) / d < m + 1 := by
    rw [div_lt_iff₀ hdq]
    have hlt : n < (m + 1) * d := (Nat.div_lt_iff_lt_mul hd).mp (by omega)
    exact_mod_cast hlt
  have habove : (m : ℚ) ≤ n / d := by
    rw [le_div_iff₀ hdq]
    have hle : m * d ≤ n := (Nat.le_div_iff_mul_le hd).mp hmantissa.ge
    exact_mod_cast hle
  unfold lastPlace double
  dsimp only
  by_cases hzero : m = 0
  · have hexp : e ≤ -1074 := hplaces.resolve_right (by omega)
    have hlt : (2 : ℚ) ^ log2Ratio num den < 2 ^ e := by
      calc (2 : ℚ) ^ log2Ratio num den ≤ num / den := (lt_of_log2Ratio hnum hden).1
        _ = n / d * 2 ^ e := hvalue
        _ < 1 * 2 ^ e := by
          refine mul_lt_mul_of_pos_right ?_ (by positivity)
          simpa [hzero] using hbelow
        _ = 2 ^ e := one_mul _
    have hlog := (zpow_lt_zpow_iff_right₀ (by norm_num : (1 : ℚ) < 2)).mp hlt
    rw [hzero, Nat.log2_zero]
    omega
  · have hlow : (2 : ℚ) ^ (m.log2 : Int) ≤ m := by exact_mod_cast Nat.log2_self_le hzero
    have hhigh : (m : ℚ) + 1 ≤ 2 ^ ((m.log2 : Int) + 1) := by
      exact_mod_cast Nat.lt_log2_self (n := m)
    have hlog : log2Ratio num den = m.log2 + e := by
      refine log2Ratio_eq hnum hden ?_ ?_
      · rw [← le_div_iff₀' hdenq, hvalue, zpow_add₀ (by norm_num)]
        exact mul_le_mul_of_nonneg_right (hlow.trans habove) (by positivity)
      · rw [← div_lt_iff₀' hdenq, hvalue, add_right_comm, zpow_add₀ (by norm_num)]
        exact mul_lt_mul_of_pos_right (hbelow.trans_le hhigh) (by positivity)
    rw [hlog]
    omega

/-- A mantissa is shifted to the last place of the number, and is rounded there. -/
lemma shift_rounded {accuracy : Accuracy} {n d : Nat} (hd : 0 < d)
    (hrepresents : Represents (.ofMantissaAndAccuracy m accuracy) n d)
    (hplaces : e ≤ -1074 ∨ 2 ^ 52 ≤ m) (hnum : num ≠ 0) (hden : den ≠ 0)
    (hvalue : (num : ℚ) / den = n / d * 2 ^ e) :
    ∃ em, shiftToTargetExponent Float.Model.Format.binary64 m e accuracy =
        (em, lastPlace double num den) ∧
      em.roundedMantissa = significandAt num den (lastPlace double num den) := by
  have hmantissa : n / d = m := by
    rw [hrepresents.1]
    cases accuracy with
    | exact => rfl
    | inexact o => cases o <;> rfl
  have htarget := lastPlace_eq hd hmantissa hplaces hnum hden hvalue
  have hlast : e ≤ lastPlace double num den := by
    rw [← htarget]
    rcases hplaces with he | hm
    · omega
    · have hlog : 52 ≤ m.log2 := (Nat.le_log2 (by omega)).mpr hm
      omega
  obtain ⟨k, hk⟩ := Int.eq_ofNat_of_zero_le (show 0 ≤ lastPlace double num den - e by omega)
  have hplace : lastPlace double num den = e + k := by omega
  refine ⟨ExtendedMantissa.ofMantissaAndAccuracy m accuracy >>> k, ?_, ?_⟩
  · unfold shiftToTargetExponent shiftToExponent
    dsimp only
    rw [targetExponent_eq, htarget, hk, Int.toNat_natCast]
    congr 1
    omega
  · obtain ⟨n', d', hd', hratio, heq⟩ :=
      significandAt_eq num (Nat.pos_of_ne_zero hden) (lastPlace double num den)
    rw [heq, (hrepresents.shiftRight hd k).roundedMantissa (by positivity)]
    refine roundHalfEven_congr (by positivity) hd' ?_
    rw [hratio, hvalue, hplace, zpow_add₀ (by norm_num), zpow_natCast]
    push_cast
    field_simp

/-- The bits of a rounded mantissa, which may have a carry. -/
lemma toNat_pack_rounded {r : Nat} {last : Int} (hlowest : -1074 ≤ last) (hmost : r ≤ 2 ^ 53)
    (hleast : last = -1074 ∨ 2 ^ 52 ≤ r) :
    (pack Float.Model.Format.binary64
      (match shiftToTargetExponent Float.Model.Format.binary64 r last .exact with
      | (em, e) =>
        if h : em.mantissa = 0 then .zero .positive
        else .finite .positive em.mantissa e (Nat.pos_of_ne_zero h))).toNat =
      min double.infinity ((last - double.lowest).toNat * 2 ^ (double.width - 1) + r) := by
  have hlowestPlace := lowest_double
  have hwidth : double.width - 1 = 52 := rfl
  by_cases hcarry : r = 2 ^ 53
  · subst hcarry
    rw [shift_carried hlowest]
    dsimp only
    rw [dif_neg (by norm_num), toNat_pack ⟨by decide, by omega, Or.inr (by decide)⟩]
    have hsum : patternOf double (2 ^ 52) (last + 1) =
        (last - double.lowest).toNat * 2 ^ (double.width - 1) + 2 ^ 53 := by
      unfold patternOf
      rw [hlowestPlace, hwidth]
      omega
    rw [hsum]
  · have hfits : r < 2 ^ 53 := by omega
    rw [shift_fitting hfits hlowest]
    dsimp only
    by_cases hzero : r = 0
    · rw [dif_pos hzero, hzero, hleast.resolve_right (by omega)]
      rfl
    · rw [dif_neg hzero, toNat_pack ⟨hfits, hlowest, hleast⟩]
      rfl

/-- A number that is given by a mantissa, an exponent and the accuracy of the mantissa is rounded to
the double nearest to it. -/
theorem toNat_roundWithAccuracy {accuracy : Accuracy} {n d : Nat} {v : ℚ} (hd : 0 < d)
    (hrepresents : Represents (.ofMantissaAndAccuracy m accuracy) n d)
    (hplaces : e ≤ -1074 ∨ 2 ^ 52 ≤ m) (hv : 0 < v) (hvalue : v = n / d * 2 ^ e) :
    (pack Float.Model.Format.binary64
      (roundWithAccuracy Float.Model.Format.binary64 .positive m e accuracy)).toNat =
      nearestTo v := by
  have hnum : v.num.natAbs ≠ 0 := Int.natAbs_ne_zero.mpr (Rat.num_pos.mpr hv).ne'
  have hden : v.den ≠ 0 := v.den_nz
  rw [← ratio_eq hv.le] at hvalue
  obtain ⟨em, hshift, hrounded⟩ := shift_rounded hd hrepresents hplaces hnum hden hvalue
  unfold nearestTo roundWithAccuracy
  rw [nearest_eq double hnum, hshift]
  dsimp only
  rw [hrounded]
  exact toNat_pack_rounded (le_max_right _ _) (significandAt_lastPlace_le double hnum hden)
    (le_significandAt_lastPlace double (by decide) hnum hden)

end Packing

section Operations

variable {p q m₁ m₂ : Nat} {e₁ e₂ : Int}

/-- The sign of a double with this sign bit. -/
def signOf (s : Bool) : Sign :=
  if s then .negative else .positive

/-- The fields of the bits of a double. -/
lemma fields_of_bits {b : BitVec 64} {s : Bool} (hb : b.toNat = signedPattern doubleSign s p)
    (hp : p < double.infinity) :
    (@unpackExponent Float.Model.Format.binary64 b).toNat = p / 2 ^ 52 ∧
      (@unpackMantissa Float.Model.Format.binary64 b).toNat = p % 2 ^ 52 ∧
      Sign.ofBitVec (@unpackSign Float.Model.Format.binary64 b) = signOf s := by
  have hinf := infinity_double
  have hbits : b.toNat = (if s then 1 else 0) * 2 ^ 63 + p := by
    rw [hb]
    unfold signedPattern doubleSign
    cases s <;> simp
  refine ⟨?_, ?_, ?_⟩
  · rw [toNat_unpackExponent, hbits]
    change ((if s then 1 else 0) * 2 ^ 63 + p) / 2 ^ 52 % 2 ^ 11 = p / 2 ^ 52
    split <;> omega
  · rw [toNat_unpackMantissa, hbits]
    change ((if s then 1 else 0) * 2 ^ 63 + p) % 2 ^ 52 = p % 2 ^ 52
    split <;> omega
  · have hsign : @unpackSign Float.Model.Format.binary64 b = if s then 1#1 else 0#1 := by
      rw [← BitVec.toNat_inj, unpackSign_def, BitVec.extractLsb'_toNat, hbits]
      change ((if s then 1 else 0) * 2 ^ 63 + p) >>> 63 % 2 = _
      rw [Nat.shiftRight_eq_div_pow]
      cases s <;> simp <;> omega
    rw [hsign]
    cases s <;> rfl

/-- Bits without places of the exponent are those of zero or of a subnormal number. -/
lemma unpack_subnormal {b : BitVec 64} {s : Bool} (hb : b.toNat = signedPattern doubleSign s p)
    (hp : p < 2 ^ 52) :
    unpack Float.Model.Format.binary64 b = if h : p = 0 then .zero (signOf s)
      else .finite (signOf s) p (-1074) (Nat.pos_of_ne_zero h) := by
  have hinf := infinity_double
  obtain ⟨hexponent, hmantissa, hsign⟩ := fields_of_bits hb (by omega)
  have hzero : @unpackExponent Float.Model.Format.binary64 b = 0#11 := by
    rw [← BitVec.toNat_inj, hexponent, Nat.div_eq_of_lt hp]
    rfl
  have hempty : @unpackMantissa Float.Model.Format.binary64 b = 0#52 ↔ p = 0 := by
    rw [← BitVec.toNat_inj, hmantissa, Nat.mod_eq_of_lt hp]
    rfl
  unfold unpack
  dsimp only
  rw [hzero, if_neg (by decide), if_pos rfl]
  simp only [hsign]
  by_cases hp0 : p = 0
  · rw [dif_pos (hempty.mpr hp0), dif_pos hp0]
  · rw [dif_neg (mt hempty.mp hp0), dif_neg hp0, finite.injEq]
    exact ⟨rfl, hmantissa.trans (Nat.mod_eq_of_lt hp), rfl⟩

/-- Bits with places of the exponent are those of a normal number. -/
lemma unpack_normal {b : BitVec 64} {s : Bool} (hb : b.toNat = signedPattern doubleSign s p)
    (hp : p < double.infinity) (hlarge : 2 ^ 52 ≤ p) : unpack Float.Model.Format.binary64 b =
      .finite (signOf s) (2 ^ 52 + p % 2 ^ 52) ((p / 2 ^ 52 : Nat) - 1075) (by positivity) := by
  have hinf := infinity_double
  obtain ⟨hexponent, hmantissa, hsign⟩ := fields_of_bits hb hp
  have hfinite : @unpackExponent Float.Model.Format.binary64 b ≠ -1#11 := by
    intro hall
    rw [hall] at hexponent
    have hlargest : (-1#11).toNat = 2047 := rfl
    omega
  have hnormal : @unpackExponent Float.Model.Format.binary64 b ≠ 0#11 := by
    intro hzero
    rw [hzero] at hexponent
    have hnone : (0#11).toNat = 0 := rfl
    omega
  have hlt : (@unpackMantissa Float.Model.Format.binary64 b).toNat < 2 ^ 52 := by omega
  unfold unpack
  dsimp only
  rw [if_neg hfinite, if_neg hnormal]
  simp only [hsign]
  rw [finite.injEq]
  refine ⟨rfl, ?_, ?_⟩
  · rw [BitVec.toNat_append, ← Nat.shiftLeft_add_eq_or_of_lt hlt, hmantissa]
    rfl
  · rw [hexponent]
    rfl

/-- A double is unpacked to its sign and the significand and the exponent of its pattern. -/
lemma unpack_signed (s : Bool) {m : Nat} {e : Int} (hparts : double.parts? p = some (m, e)) :
    (doubleOfPattern s p).toModel.unpack =
      if h : m = 0 then .zero (signOf s) else .finite (signOf s) m e (Nat.pos_of_ne_zero h) := by
  have hp : p < double.infinity := (normal_of_parts hparts).1
  have hbits : (doubleOfPattern s p).toModel.toBits.toBitVec.toNat = signedPattern doubleSign s p :=
    toBits_doubleOfPattern s hp.le
  have hhidden : 1 <<< (double.width - 1) = 2 ^ 52 := rfl
  unfold Format.parts? at hparts
  rw [if_neg (not_le.mpr hp)] at hparts
  simp only [hhidden] at hparts
  unfold Float.Model.unpack
  by_cases hsmall : p < 2 ^ 52
  · rw [if_pos (Nat.div_eq_of_lt hsmall)] at hparts
    obtain ⟨rfl, rfl⟩ := Prod.mk.inj (Option.some.inj hparts)
    exact unpack_subnormal hbits hsmall
  · rw [if_neg (by omega)] at hparts
    obtain ⟨rfl, rfl⟩ := Prod.mk.inj (Option.some.inj hparts)
    rw [unpack_normal hbits hp (not_lt.mp hsmall), dif_neg (by omega), finite.injEq]
    refine ⟨rfl, rfl, ?_⟩
    have hlowest := lowest_double
    omega

/-- A double without sign is unpacked to the significand and the exponent of its pattern. -/
lemma unpack_doubleOfPattern {m : Nat} {e : Int} (hparts : double.parts? p = some (m, e)) :
    (doubleOfPattern false p).toModel.unpack =
      if h : m = 0 then .zero .positive else .finite .positive m e (Nat.pos_of_ne_zero h) :=
  unpack_signed false hparts

/-- A double is known by its bits. -/
lemma eq_doubleOfPattern {x : Float} (bits : BitVec 64) (hx : x.toModel.toBits.toBitVec = bits)
    (h : bits.toNat = p) : x = doubleOfPattern false p := by
  have hbits : x.toBits = UInt64.ofNat p := by
    rw [← h, ← hx]
    exact UInt64.ofNat_toNat.symm
  calc x = Float.ofBits x.toBits := (Float.ofBits_toBits x).symm
    _ = doubleOfPattern false p := by
      rw [hbits]
      rfl

/-- The product of two doubles without sign is the double nearest to the exact product. -/
theorem mul_double (hp : p < double.infinity) (hq : q < double.infinity) :
    doubleOfPattern false p * doubleOfPattern false q =
      doubleOfPattern false (nearestTo (valueOf p * valueOf q)) := by
  obtain ⟨m₁, e₁, hparts₁, ⟨-, -, hfull₁⟩, -⟩ := parts_normal double (by decide) p hp
  obtain ⟨m₂, e₂, hparts₂, ⟨-, -, hfull₂⟩, -⟩ := parts_normal double (by decide) q hq
  refine eq_doubleOfPattern (pack Float.Model.Format.binary64
    (mul Float.Model.Format.binary64 (doubleOfPattern false p).toModel.unpack
      (doubleOfPattern false q).toModel.unpack)) rfl ?_
  rw [unpack_doubleOfPattern hparts₁, unpack_doubleOfPattern hparts₂, valueOf_eq hparts₁,
    valueOf_eq hparts₂]
  by_cases h₁ : m₁ = 0
  · rw [dif_pos h₁, h₁, Nat.cast_zero, zero_mul, zero_mul]
    split <;> rfl
  by_cases h₂ : m₂ = 0
  · rw [dif_neg h₁, dif_pos h₂, h₂, Nat.cast_zero, zero_mul, mul_zero]
    rfl
  rw [dif_neg h₁, dif_neg h₂]
  refine toNat_roundWithAccuracy one_pos (Represents.exact (m₁ * m₂)) ?_ (by positivity) ?_
  · -- One of two factors has all its places, unless both are subnormal.
    change e₁ = -1074 ∨ 2 ^ 52 ≤ m₁ at hfull₁
    change e₂ = -1074 ∨ 2 ^ 52 ≤ m₂ at hfull₂
    rcases hfull₁ with he₁ | hfull₁
    · rcases hfull₂ with he₂ | hfull₂
      · exact Or.inl (by omega)
      · exact Or.inr (hfull₂.trans (Nat.le_mul_of_pos_left _ (Nat.pos_of_ne_zero h₁)))
    · exact Or.inr (hfull₁.trans (Nat.le_mul_of_pos_right _ (Nat.pos_of_ne_zero h₂)))
  · rw [zpow_add₀ (by norm_num)]
    push_cast
    ring

/-- A quotient is computed with so many places that it can be rounded. -/
lemma divCore_eq (h₁ : m₁ ≠ 0) (h₂ : m₂ ≠ 0) (e₁ e₂ : Int) :
    ∃ (k : Nat) (e : Int), divCore Float.Model.Format.binary64 m₁ e₁ m₂ e₂ =
        (m₁ * 2 ^ k / m₂, e, accuracyOfFraction (m₁ * 2 ^ k % m₂) m₂) ∧
      e + k = e₁ - e₂ ∧ (e ≤ -1074 ∨ 2 ^ 52 ≤ m₁ * 2 ^ k / m₂) := by
  have hbits : (Float.Model.Format.binary64.mantissaBits : Int) = 53 := rfl
  have hleast : Float.Model.Format.binary64.minExponent = -1074 := rfl
  obtain ⟨e, he⟩ : ∃ e, e = min (e₁ - e₂) (max ((m₁.log2 : Int) - m₂.log2 + e₁ - e₂ - 53) (-1074)) :=
    ⟨_, rfl⟩
  obtain ⟨k, hk⟩ := Int.eq_ofNat_of_zero_le (show 0 ≤ e₁ - e₂ - e by omega)
  refine ⟨k, e, ?_, by omega, ?_⟩
  · have htarget : min (e₁ - e₂) (Float.Model.Format.binary64.targetExponent
        (Float.Model.totalExponent m₁ e₁ - Float.Model.totalExponent m₂ e₂)) = e := by
      unfold Float.Model.Format.targetExponent Float.Model.totalExponent
      rw [hbits, hleast, he]
      omega
    unfold divCore
    simp only [htarget, hk, Int.toNat_natCast, Nat.shiftLeft_eq]
  · by_cases hlowest : e ≤ -1074
    · exact Or.inl hlowest
    have hplaces : m₂.log2 + 1 + 52 ≤ m₁.log2 + k := by omega
    refine Or.inr ((Nat.le_div_iff_mul_le (Nat.pos_of_ne_zero h₂)).mpr ?_)
    calc 2 ^ 52 * m₂ ≤ 2 ^ 52 * 2 ^ (m₂.log2 + 1) :=
          Nat.mul_le_mul_left _ (Nat.lt_log2_self (n := m₂)).le
      _ = 2 ^ (m₂.log2 + 1 + 52) := by ring
      _ ≤ 2 ^ (m₁.log2 + k) := Nat.pow_le_pow_right (by norm_num) hplaces
      _ = 2 ^ m₁.log2 * 2 ^ k := Nat.pow_add _ _ _
      _ ≤ m₁ * 2 ^ k := Nat.mul_le_mul_right _ (Nat.log2_self_le h₁)

/-- The quotient of two doubles without sign is the double nearest to the exact quotient. -/
theorem div_double (hp : p < double.infinity) (hq : q < double.infinity) (hpos : 0 < valueOf q) :
    doubleOfPattern false p / doubleOfPattern false q =
      doubleOfPattern false (nearestTo (valueOf p / valueOf q)) := by
  obtain ⟨m₁, e₁, hparts₁, -, -⟩ := parts_normal double (by decide) p hp
  obtain ⟨m₂, e₂, hparts₂, -, -⟩ := parts_normal double (by decide) q hq
  rw [valueOf_eq hparts₂] at hpos
  have h₂ : m₂ ≠ 0 := by
    rintro rfl
    simp at hpos
  refine eq_doubleOfPattern (pack Float.Model.Format.binary64
    (div Float.Model.Format.binary64 (doubleOfPattern false p).toModel.unpack
      (doubleOfPattern false q).toModel.unpack)) rfl ?_
  rw [unpack_doubleOfPattern hparts₁, unpack_doubleOfPattern hparts₂, valueOf_eq hparts₁,
    valueOf_eq hparts₂, dif_neg h₂]
  by_cases h₁ : m₁ = 0
  · rw [dif_pos h₁, h₁, Nat.cast_zero, zero_mul, zero_div]
    rfl
  rw [dif_neg h₁]
  obtain ⟨k, e, hcore, hexponent, hplaces⟩ := divCore_eq h₁ h₂ e₁ e₂
  unfold div
  dsimp only
  rw [hcore]
  refine toNat_roundWithAccuracy (Nat.pos_of_ne_zero h₂) (Represents.fraction (m₁ * 2 ^ k) m₂)
    hplaces (by positivity) ?_
  have hm₂ : (m₂ : ℚ) ≠ 0 := by exact_mod_cast h₂
  have hpower : (2 : ℚ) ^ e₁ = 2 ^ e * 2 ^ k * 2 ^ e₂ := by
    rw [← zpow_natCast, ← zpow_add₀ (by norm_num), ← zpow_add₀ (by norm_num)]
    congr 1
    omega
  rw [hpower]
  push_cast
  field_simp

end Operations

end WideDeep.Proofs
