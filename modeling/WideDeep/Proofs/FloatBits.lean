import Mathlib
import WideDeep.Binary.Stored

/-!
# Bits of floating-point numbers

A number is its bit pattern, and all patterns of not-a-numbers stand for one number. So what has been
written bit by bit is read back as the same number, whatever sign a not-a-number was given.
-/

namespace WideDeep.Proofs

section Format

open Float.Model.UnpackedFloat

variable {spec : Float.Model.Format}

lemma toNat_unpackExponent (b : BitVec spec.numBits) : (unpackExponent b).toNat =
    b.toNat / 2 ^ spec.mantissaBitsWithoutImplicit % 2 ^ spec.exponentBits := by
  rw [unpackExponent_def, BitVec.extractLsb'_toNat, Nat.shiftRight_eq_div_pow]

lemma toNat_unpackMantissa (b : BitVec spec.numBits) :
    (unpackMantissa b).toNat = b.toNat % 2 ^ spec.mantissaBitsWithoutImplicit := by
  rw [unpackMantissa_def, BitVec.extractLsb'_toNat, Nat.shiftRight_zero]

/-- The pattern of infinity, sign aside. -/
def infinityPattern (spec : Float.Model.Format) : Nat :=
  (2 ^ spec.exponentBits - 1) * 2 ^ spec.mantissaBitsWithoutImplicit

/-- The patterns above infinity, sign aside, are those of not-a-numbers. -/
lemma infinityPattern_lt (b : BitVec spec.numBits) :
    infinityPattern spec < b.toNat % 2 ^ (spec.exponentBits + spec.mantissaBitsWithoutImplicit) ↔
      unpackExponent b = -1#_ ∧ unpackMantissa b ≠ 0#_ := by
  have hexp : unpackExponent b = -1#_ ↔
      b.toNat / 2 ^ spec.mantissaBitsWithoutImplicit % 2 ^ spec.exponentBits =
        2 ^ spec.exponentBits - 1 := by
    rw [← BitVec.toNat_inj, toNat_unpackExponent, BitVec.neg_one_eq_allOnes, BitVec.toNat_allOnes]
  have hmant : unpackMantissa b = 0#_ ↔ b.toNat % 2 ^ spec.mantissaBitsWithoutImplicit = 0 := by
    rw [← BitVec.toNat_inj, toNat_unpackMantissa, BitVec.toNat_zero]
  rw [hexp, ne_eq, hmant, infinityPattern, Nat.add_comm spec.exponentBits, pow_add, Nat.mod_mul]
  have hpos : 0 < 2 ^ spec.mantissaBitsWithoutImplicit := by positivity
  have hcapacity : 0 < 2 ^ spec.exponentBits := by positivity
  have hrest := Nat.mod_lt b.toNat hpos
  have hlt := Nat.mod_lt (b.toNat / 2 ^ spec.mantissaBitsWithoutImplicit) hcapacity
  generalize b.toNat / 2 ^ spec.mantissaBitsWithoutImplicit % 2 ^ spec.exponentBits = q at *
  generalize b.toNat % 2 ^ spec.mantissaBitsWithoutImplicit = r at *
  generalize 2 ^ spec.mantissaBitsWithoutImplicit = c at *
  generalize 2 ^ spec.exponentBits = d at *
  constructor
  · intro h
    have hq : q = d - 1 := by
      by_contra hne
      have hle : (q + 1) * c ≤ (d - 1) * c := Nat.mul_le_mul_right c (by omega)
      rw [Nat.succ_mul, Nat.mul_comm q c] at hle
      omega
    subst hq
    rw [Nat.mul_comm] at h
    exact ⟨rfl, by omega⟩
  · rintro ⟨rfl, hr⟩
    rw [Nat.mul_comm]
    omega

/-- A pattern that is no not-a-number is valid. -/
lemma valid_of_le {b : BitVec spec.numBits}
    (h : b.toNat % 2 ^ (spec.exponentBits + spec.mantissaBitsWithoutImplicit) ≤ infinityPattern spec) :
    spec.Valid b :=
  ⟨fun hexp hmant => absurd ((infinityPattern_lt b).mpr ⟨hexp, hmant⟩) (not_lt.mpr h)⟩

end Format

open Binary

section Patterns

/-- A pattern under a sign bit. -/
def signedPattern (sign : Nat) (s : Bool) (p : Nat) : Nat :=
  if s then sign + p else p

lemma signedPattern_bounds (sign : Nat) {inf : Nat} (hinf : inf < sign) (s : Bool) {p : Nat} (hp : p ≤ inf) :
    signedPattern sign s p < 2 * sign ∧ signedPattern sign s p % sign = p := by
  unfold signedPattern
  cases s
  · simp only [Bool.false_eq_true, if_false]
    exact ⟨by omega, Nat.mod_eq_of_lt (by omega)⟩
  · simp only [if_true, Nat.add_mod_left]
    exact ⟨by omega, Nat.mod_eq_of_lt (by omega)⟩

lemma exists_signedPattern (sign : Nat) {n : Nat} (hn : n < 2 * sign) :
    ∃ s, n = signedPattern sign s (n % sign) := by
  by_cases h : n < sign
  · exact ⟨false, by simp [signedPattern, Nat.mod_eq_of_lt h]⟩
  · refine ⟨true, ?_⟩
    have hsub : n % sign = n - sign := by
      rw [Nat.mod_eq_sub_mod (not_lt.mp h), Nat.mod_eq_of_lt (by omega)]
    simp only [signedPattern, if_true, hsub]
    omega

/-- The bits of a double with a sign and a pattern are these. -/
theorem toBits_doubleOfPattern (s : Bool) {p : Nat} (hp : p ≤ double.infinity) :
    (doubleOfPattern s p).toBits.toNat = signedPattern doubleSign s p := by
  obtain ⟨hbound, hpat⟩ := signedPattern_bounds doubleSign (by decide) s hp
  change (Float.ofBits (UInt64.ofNat (signedPattern doubleSign s p))).toBits.toNat = _
  generalize signedPattern doubleSign s p = n at *
  have hnat : (UInt64.ofNat n).toBitVec.toNat = n := by
    simpa [doubleSign] using hbound
  have h : Float.Model.UnpackedFloat.pack Float.Model.Format.binary64
      (Float.Model.UnpackedFloat.unpack Float.Model.Format.binary64 (UInt64.ofNat n).toBitVec) =
        (UInt64.ofNat n).toBitVec :=
    Float.Model.UnpackedFloat.pack_unpack_of_valid
      (valid_of_le (by rw [hnat]; exact hpat.trans_le hp)) (by decide)
  simp only [Float.toBits, Float.ofBits, Float.Model.ofBits, Float.Model.pack, h]
  exact hnat

/-- The bits of a single with a sign and a pattern are these. -/
theorem toBits_singleOfPattern (s : Bool) {p : Nat} (hp : p ≤ single.infinity) :
    (singleOfPattern s p).toBits.toNat = signedPattern singleSign s p := by
  obtain ⟨hbound, hpat⟩ := signedPattern_bounds singleSign (by decide) s hp
  change (Float32.ofBits (UInt32.ofNat (signedPattern singleSign s p))).toBits.toNat = _
  generalize signedPattern singleSign s p = n at *
  have hnat : (UInt32.ofNat n).toBitVec.toNat = n := by
    simpa [singleSign] using hbound
  have h : Float.Model.UnpackedFloat.pack Float.Model.Format.binary32
      (Float.Model.UnpackedFloat.unpack Float.Model.Format.binary32 (UInt32.ofNat n).toBitVec) =
        (UInt32.ofNat n).toBitVec :=
    Float.Model.UnpackedFloat.pack_unpack_of_valid
      (valid_of_le (by rw [hnat]; exact hpat.trans_le hp)) (by decide)
  simp only [Float32.toBits, Float32.ofBits, Float32.Model.ofBits, Float32.Model.pack, h]
  exact hnat

/-- A double is the not-a-number or has a sign and a pattern up to infinity. -/
theorem double_cases (x : Float) :
    x = nan ∨ ∃ s p, p ≤ double.infinity ∧ x = doubleOfPattern s p := by
  obtain ⟨⟨bits, valid⟩⟩ := x
  have hx : Float.ofBits bits = ⟨⟨bits, valid⟩⟩ :=
    Float.ofBits_toBits ⟨⟨bits, valid⟩⟩
  rw [← hx]
  by_cases hnum : bits.toNat % doubleSign ≤ double.infinity
  · right
    have hlt : bits.toNat < 2 * doubleSign := by
      have h := bits.toNat_lt
      unfold doubleSign
      omega
    obtain ⟨s, hs⟩ := exists_signedPattern doubleSign hlt
    refine ⟨s, bits.toNat % doubleSign, hnum, ?_⟩
    change _ = Float.ofBits (UInt64.ofNat (signedPattern doubleSign s (bits.toNat % doubleSign)))
    rw [← hs, UInt64.ofNat_toNat]
  · left
    have hbig : infinityPattern Float.Model.Format.binary64 < bits.toBitVec.toNat % 2 ^ (11 + 52) := by
      simpa [infinityPattern, doubleSign, double] using hnum
    obtain ⟨hexp, hmant⟩ := (@infinityPattern_lt Float.Model.Format.binary64 bits.toBitVec).mp hbig
    unfold nan
    congr 1
    exact UInt64.eq_of_toBitVec_eq ((valid.eq_packedNaN hexp hmant).trans (by decide))

/-- A single is the not-a-number or has a sign and a pattern up to infinity. -/
theorem single_cases (x : Float32) :
    x = nan32 ∨ ∃ s p, p ≤ single.infinity ∧ x = singleOfPattern s p := by
  obtain ⟨⟨bits, valid⟩⟩ := x
  have hx : Float32.ofBits bits = ⟨⟨bits, valid⟩⟩ :=
    Float32.ofBits_toBits ⟨⟨bits, valid⟩⟩
  rw [← hx]
  by_cases hnum : bits.toNat % singleSign ≤ single.infinity
  · right
    have hlt : bits.toNat < 2 * singleSign := by
      have h := bits.toNat_lt
      unfold singleSign
      omega
    obtain ⟨s, hs⟩ := exists_signedPattern singleSign hlt
    refine ⟨s, bits.toNat % singleSign, hnum, ?_⟩
    change _ = Float32.ofBits (UInt32.ofNat (signedPattern singleSign s (bits.toNat % singleSign)))
    rw [← hs, UInt32.ofNat_toNat]
  · left
    have hbig : infinityPattern Float.Model.Format.binary32 < bits.toBitVec.toNat % 2 ^ (8 + 23) := by
      simpa [infinityPattern, singleSign, single] using hnum
    obtain ⟨hexp, hmant⟩ := (@infinityPattern_lt Float.Model.Format.binary32 bits.toBitVec).mp hbig
    unfold nan32
    congr 1
    exact UInt32.eq_of_toBitVec_eq ((valid.eq_packedNaN hexp hmant).trans (by decide))

/-- What a double with a sign and a pattern stands for. -/
theorem shape_doubleOfPattern (s : Bool) {p : Nat} (hp : p ≤ double.infinity) :
    shape (doubleOfPattern s p) = double.shape s p := by
  have hlt : p < doubleSign := lt_of_le_of_lt hp (by decide)
  unfold shape
  simp only [toBits_doubleOfPattern s hp, signedPattern]
  cases s
  · simp [hlt]
  · simp

/-- What a single with a sign and a pattern stands for. -/
theorem shape32_singleOfPattern (s : Bool) {p : Nat} (hp : p ≤ single.infinity) :
    shape32 (singleOfPattern s p) = single.shape s p := by
  have hlt : p < singleSign := lt_of_le_of_lt hp (by decide)
  unfold shape32
  simp only [toBits_singleOfPattern s hp, signedPattern]
  cases s
  · simp [hlt]
  · simp

lemma isNaN_doubleOfPattern (s : Bool) {p : Nat} (hp : p ≤ double.infinity) :
    isNaN (doubleOfPattern s p) = false := by
  unfold isNaN
  rw [shape_doubleOfPattern s hp]
  unfold Format.shape
  cases hparts : double.parts? p with
  | some q => rfl
  | none =>
    have hinf : p = double.infinity := by
      unfold Format.parts? at hparts
      split at hparts
      · omega
      · dsimp only at hparts
        split at hparts <;> cases hparts
    simp [hinf]

lemma isNaN_of_isFinite {x : Float} (h : isFinite x = true) : isNaN x = false := by
  unfold isFinite at h
  unfold isNaN
  cases hshape : shape x with
  | nan => simp [hshape] at h
  | infinite s => rfl
  | finite s m e => rfl

/-- There is one not-a-number. -/
theorem eq_nan_of_isNaN {x : Float} (h : isNaN x = true) : x = nan := by
  rcases double_cases x with hx | ⟨s, p, hp, hx⟩
  · exact hx
  · rw [hx, isNaN_doubleOfPattern s hp] at h
    cases h

end Patterns

end WideDeep.Proofs
