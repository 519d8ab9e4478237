import Mathlib.Tactic
import Mathlib.Data.Int.Log
import WideDeep.Binary.Rounding

/-!
# Rounding of numbers that a format has

A ratio that a binary format can express is rounded to itself: its pattern is read back as the same
significand and exponent.
-/

namespace WideDeep.Proofs
open Binary

/-- A significand and an exponent in the form in which a format keeps them: all places are used,
unless the exponent is the lowest one. -/
structure Normal (f : Format) (m : Nat) (e : Int) : Prop where
  bound : m < 2 ^ f.width
  lowest : f.lowest ≤ e
  full : e = f.lowest ∨ 2 ^ (f.width - 1) ≤ m

lemma infinity_double : double.infinity = 2047 * 2 ^ 52 := by decide

lemma lowest_double : double.lowest = -1074 := rfl

/-- The pattern of a significand and an exponent. -/
def patternOf (f : Format) (m : Nat) (e : Int) : Nat :=
  (e - f.lowest).toNat * 2 ^ (f.width - 1) + m

/-- A pattern below the infinite one stands for a normal significand and exponent. -/
theorem parts_normal (f : Format) (hw : 1 ≤ f.width) (p : Nat) (hp : p < f.infinity) :
    ∃ m e, f.parts? p = some (m, e) ∧ Normal f m e ∧ patternOf f m e = p := by
  have hhidden : 1 <<< (f.width - 1) = 2 ^ (f.width - 1) := by simp [Nat.shiftLeft_eq]
  have hdouble : 2 ^ f.width = 2 * 2 ^ (f.width - 1) := by
    rw [← Nat.pow_succ']
    congr 1
    omega
  have hpos : 0 < 2 ^ (f.width - 1) := by positivity
  have hsplit := Nat.div_add_mod p (2 ^ (f.width - 1))
  have hrest := Nat.mod_lt p hpos
  unfold Format.parts?
  rw [if_neg (by omega)]
  simp only [hhidden]
  by_cases hzero : p / 2 ^ (f.width - 1) = 0
  · have hsmall : p < 2 ^ (f.width - 1) := by
      rw [hzero] at hsplit
      omega
    refine ⟨p, f.lowest, by rw [if_pos hzero], ⟨by omega, le_rfl, Or.inl rfl⟩, ?_⟩
    simp [patternOf]
  · obtain ⟨q, hq⟩ : ∃ q, p / 2 ^ (f.width - 1) = q + 1 := Nat.exists_eq_succ_of_ne_zero hzero
    rw [hq] at hsplit
    refine ⟨2 ^ (f.width - 1) + p % 2 ^ (f.width - 1), f.lowest + q, ?_,
      ⟨by omega, by omega, Or.inr (by omega)⟩, ?_⟩
    · rw [if_neg hzero, hq]
      congr 3
      omega
    · have hplace : (f.lowest + q - f.lowest).toNat = q := by omega
      rw [patternOf, hplace]
      calc q * 2 ^ (f.width - 1) + (2 ^ (f.width - 1) + p % 2 ^ (f.width - 1))
          = 2 ^ (f.width - 1) * (q + 1) + p % 2 ^ (f.width - 1) := by ring
        _ = p := hsplit

/-- The pattern of a normal significand and exponent is read back as these. -/
theorem parts_patternOf (f : Format) (hw : 1 ≤ f.width) {m : Nat} {e : Int} (h : Normal f m e)
    (hp : patternOf f m e < f.infinity) : f.parts? (patternOf f m e) = some (m, e) := by
  obtain ⟨m', e', hparts, h', heq⟩ := parts_normal f hw _ hp
  have hpos : 0 < 2 ^ (f.width - 1) := by positivity
  have hdouble : 2 ^ f.width = 2 * 2 ^ (f.width - 1) := by
    rw [← Nat.pow_succ']
    congr 1
    omega
  have hb := h.bound
  have hb' := h'.bound
  have hl := h.lowest
  have hl' := h'.lowest
  unfold patternOf at heq
  have hexp : (e' - f.lowest).toNat = (e - f.lowest).toNat := by
    rcases Nat.lt_trichotomy (e' - f.lowest).toNat (e - f.lowest).toNat with hlt | heq' | hgt
    · have hfull : 2 ^ (f.width - 1) ≤ m := h.full.resolve_left (by omega)
      have hstep := Nat.mul_le_mul_right (2 ^ (f.width - 1)) (Nat.succ_le_of_lt hlt)
      rw [Nat.succ_mul] at hstep
      omega
    · exact heq'
    · have hfull : 2 ^ (f.width - 1) ≤ m' := h'.full.resolve_left (by omega)
      have hstep := Nat.mul_le_mul_right (2 ^ (f.width - 1)) (Nat.succ_le_of_lt hgt)
      rw [Nat.succ_mul] at hstep
      omega
  rw [hexp] at heq
  have hm : m' = m := by omega
  have he : e' = e := by omega
  rw [hparts, hm, he]

/-- The binary logarithm of a ratio is the place of its leading digit. -/
theorem log2Ratio_spec {num den : Nat} (hn : num ≠ 0) (hd : den ≠ 0) :
    (den : ℚ) * 2 ^ log2Ratio num den ≤ num ∧ (num : ℚ) < den * 2 ^ (log2Ratio num den + 1) := by
  have two : (2 : ℚ) ≠ 0 := by norm_num
  have hnlow : (2 : ℚ) ^ (Nat.log2 num : Int) ≤ num := by
    exact_mod_cast Nat.log2_self_le hn
  have hnhigh : (num : ℚ) < 2 ^ ((Nat.log2 num : Int) + 1) := by
    exact_mod_cast Nat.lt_log2_self (n := num)
  have hdlow : (2 : ℚ) ^ (Nat.log2 den : Int) ≤ den := by
    exact_mod_cast Nat.log2_self_le hd
  have hdhigh : (den : ℚ) < 2 ^ ((Nat.log2 den : Int) + 1) := by
    exact_mod_cast Nat.lt_log2_self (n := den)
  set k : Int := (Nat.log2 num : Int) - (Nat.log2 den : Int) with hk
  have hfits : (if 0 ≤ k then den <<< k.toNat ≤ num else den ≤ num <<< (-k).toNat) ↔
      (den : ℚ) * 2 ^ k ≤ num := by
    by_cases h : 0 ≤ k
    · obtain ⟨n, hn⟩ := Int.eq_ofNat_of_zero_le h
      rw [if_pos h, hn]
      simp only [Int.toNat_natCast, Nat.shiftLeft_eq, zpow_natCast]
      exact_mod_cast Iff.rfl
    · obtain ⟨n, hn⟩ := Int.eq_ofNat_of_zero_le (show 0 ≤ -k by omega)
      have hkn : k = -(n : Int) := by omega
      rw [if_neg h, hn, hkn]
      simp only [Int.toNat_natCast, Nat.shiftLeft_eq, zpow_neg, zpow_natCast]
      rw [← div_eq_mul_inv, div_le_iff₀ (by positivity)]
      exact_mod_cast Iff.rfl
  have hlower : (den : ℚ) * 2 ^ (k - 1) ≤ num := by
    calc (den : ℚ) * 2 ^ (k - 1) ≤ 2 ^ ((Nat.log2 den : Int) + 1) * 2 ^ (k - 1) := by gcongr
      _ = 2 ^ (Nat.log2 num : Int) := by
        rw [← zpow_add₀ two]
        congr 1
        omega
      _ ≤ num := hnlow
  have hupper : (num : ℚ) < den * 2 ^ (k + 1) := by
    calc (num : ℚ) < 2 ^ ((Nat.log2 num : Int) + 1) := hnhigh
      _ = 2 ^ (Nat.log2 den : Int) * 2 ^ (k + 1) := by
        rw [← zpow_add₀ two]
        congr 1
        omega
      _ ≤ den * 2 ^ (k + 1) := by gcongr
  unfold log2Ratio
  rw [← hk]
  dsimp only
  by_cases h : (den : ℚ) * 2 ^ k ≤ num
  · rw [if_pos (hfits.mpr h)]
    exact ⟨h, hupper⟩
  · rw [if_neg (mt hfits.mp h), Int.sub_add_cancel]
    exact ⟨hlower, not_le.mp h⟩

/-- The place of the leading digit is determined by the bounds around the ratio. -/
lemma log2Ratio_eq {num den : Nat} (hn : num ≠ 0) (hd : den ≠ 0) {k : Int}
    (hlow : (den : ℚ) * 2 ^ k ≤ num) (hhigh : (num : ℚ) < den * 2 ^ (k + 1)) :
    log2Ratio num den = k := by
  obtain ⟨hlow', hhigh'⟩ := log2Ratio_spec hn hd
  have hden : (0 : ℚ) < den := by
    exact_mod_cast Nat.pos_of_ne_zero hd
  have h₁ : (2 : ℚ) ^ k < 2 ^ (log2Ratio num den + 1) :=
    lt_of_mul_lt_mul_left (lt_of_le_of_lt hlow hhigh') hden.le
  have h₂ : (2 : ℚ) ^ log2Ratio num den < 2 ^ (k + 1) :=
    lt_of_mul_lt_mul_left (lt_of_le_of_lt hlow' hhigh) hden.le
  have h₃ := (zpow_lt_zpow_iff_right₀ (by norm_num : (1 : ℚ) < 2)).mp h₁
  have h₄ := (zpow_lt_zpow_iff_right₀ (by norm_num : (1 : ℚ) < 2)).mp h₂
  omega

lemma roundHalfEven_exact (m : Nat) {den : Nat} (hd : 0 < den) : roundHalfEven (m * den) den = m := by
  unfold roundHalfEven
  simp only [Nat.mul_mod_left, Nat.mul_div_cancel m hd, Nat.mul_zero, if_pos hd]

lemma log2Ratio_of_value {m num den : Nat} {e : Int} (hm : m ≠ 0) (hn : num ≠ 0) (hd : den ≠ 0)
    (hvalue : (num : ℚ) = m * 2 ^ e * den) : log2Ratio num den = Nat.log2 m + e := by
  have two : (2 : ℚ) ≠ 0 := by norm_num
  have hden : (0 : ℚ) < den := by
    exact_mod_cast Nat.pos_of_ne_zero hd
  have hlow : (2 : ℚ) ^ (Nat.log2 m : Int) ≤ m := by
    exact_mod_cast Nat.log2_self_le hm
  have hhigh : (m : ℚ) < 2 ^ ((Nat.log2 m : Int) + 1) := by
    exact_mod_cast Nat.lt_log2_self (n := m)
  apply log2Ratio_eq hn hd
  · rw [hvalue, zpow_add₀ two, mul_comm (den : ℚ)]
    gcongr
  · rw [hvalue, add_right_comm, zpow_add₀ two, mul_comm (den : ℚ)]
    gcongr

lemma significand_of_value {m num den : Nat} {e : Int} (hd : den ≠ 0)
    (hvalue : (num : ℚ) = m * 2 ^ e * den) :
    (if 0 ≤ e then roundHalfEven num (den <<< e.toNat)
      else roundHalfEven (num <<< (-e).toNat) den) = m := by
  by_cases he : 0 ≤ e
  · obtain ⟨n, rfl⟩ := Int.eq_ofNat_of_zero_le he
    have hnat : num = m * (den * 2 ^ n) := by
      rw [zpow_natCast] at hvalue
      have : (num : ℚ) = ((m * (den * 2 ^ n) : Nat) : ℚ) := by
        push_cast
        rw [hvalue]
        ring
      exact_mod_cast this
    rw [if_pos he, Int.toNat_natCast, Nat.shiftLeft_eq, hnat]
    exact roundHalfEven_exact m (by positivity)
  · obtain ⟨n, hn⟩ := Int.eq_ofNat_of_zero_le (show 0 ≤ -e by omega)
    have hnat : num * 2 ^ n = m * den := by
      have he' : e = -(n : Int) := by omega
      rw [he', zpow_neg, zpow_natCast] at hvalue
      have : ((num * 2 ^ n : Nat) : ℚ) = ((m * den : Nat) : ℚ) := by
        push_cast
        rw [hvalue]
        field_simp
      exact_mod_cast this
    rw [if_neg he, hn, Int.toNat_natCast, Nat.shiftLeft_eq, hnat]
    exact roundHalfEven_exact m (Nat.pos_of_ne_zero hd)

/-- The last place of a normal significand is its exponent. -/
lemma last_of_normal {f : Format} (hw : 1 ≤ f.width) {m : Nat} {e : Int} (h : Normal f m e)
    (hm : m ≠ 0) :
    (if (Nat.log2 m : Int) + e - ((f.width : Int) - 1) < f.lowest then f.lowest
      else (Nat.log2 m : Int) + e - ((f.width : Int) - 1)) = e := by
  have hsize : (Nat.log2 m : Int) < f.width := by
    exact_mod_cast (Nat.log2_lt hm).mpr h.bound
  have hlowest := h.lowest
  rcases h.full with he | hfull
  · split <;> omega
  · have hbig : ((f.width - 1 : Nat) : Int) ≤ Nat.log2 m := by
      exact_mod_cast (Nat.le_log2 hm).mpr hfull
    split <;> omega

/-- A ratio that a format can express has the pattern of its significand and exponent. -/
theorem nearest_exact (f : Format) (hw : 1 ≤ f.width) {m : Nat} {e : Int} (h : Normal f m e)
    {num den : Nat} (hd : den ≠ 0) (hvalue : (num : ℚ) = m * 2 ^ e * den)
    (hp : patternOf f m e < f.infinity) : f.nearest num den = patternOf f m e := by
  by_cases hm : m = 0
  · subst hm
    have hn : num = 0 := by
      have : (num : ℚ) = 0 := by simpa using hvalue
      exact_mod_cast this
    have hpos : 0 < 2 ^ (f.width - 1) := by positivity
    have he : e = f.lowest := h.full.resolve_right (by omega)
    simp [Format.nearest, hn, patternOf, he]
  · have hn : num ≠ 0 := by
      intro hn
      rw [hn, Nat.cast_zero] at hvalue
      have hmq : (m : ℚ) ≠ 0 := by exact_mod_cast hm
      have hdq : (den : ℚ) ≠ 0 := by exact_mod_cast hd
      have : (m : ℚ) * 2 ^ e * den ≠ 0 := by positivity
      exact this hvalue.symm
    unfold Format.nearest
    rw [if_neg hn, log2Ratio_of_value hm hn hd hvalue]
    dsimp only
    rw [last_of_normal hw h hm, significand_of_value hd hvalue, Nat.shiftLeft_eq]
    unfold patternOf at hp ⊢
    exact if_neg (by omega)

lemma log2Ratio_one {num : Nat} (hn : num ≠ 0) : log2Ratio num 1 = Nat.log2 num := by
  have hlow := Nat.log2_self_le hn
  unfold log2Ratio
  have hone : Nat.log2 1 = 0 := by decide
  simp [hone, Nat.shiftLeft_eq, hlow]

lemma roundHalfEven_le (num den : Nat) : roundHalfEven num den ≤ num / den + 1 := by
  unfold roundHalfEven
  dsimp only
  split
  · omega
  · split
    · omega
    · split <;> omega

/-- The significand to which an integer is rounded has 53 bits, or it is the power above them. -/
lemma significand_le {num : Nat} {last : Int} (hlast : last = (Nat.log2 num : Int) - 52) :
    (if 0 ≤ last then roundHalfEven num (1 <<< last.toNat)
      else roundHalfEven (num <<< (-last).toNat) 1) ≤ 2 ^ 53 := by
  have hhigh : num < 2 ^ (Nat.log2 num + 1) := Nat.lt_log2_self
  by_cases hpos : 0 ≤ last
  · rw [if_pos hpos]
    have hround := roundHalfEven_le num (1 <<< last.toNat)
    have hdiv : num / (1 <<< last.toNat) < 2 ^ 53 := by
      rw [Nat.shiftLeft_eq, one_mul, Nat.div_lt_iff_lt_mul (by positivity), ← pow_add]
      have hexp : 53 + last.toNat = Nat.log2 num + 1 := by omega
      rwa [hexp]
    omega
  · rw [if_neg hpos]
    have hround := roundHalfEven_le (num <<< (-last).toNat) 1
    have hmul : num <<< (-last).toNat < 2 ^ 53 := by
      rw [Nat.shiftLeft_eq]
      calc num * 2 ^ (-last).toNat < 2 ^ (Nat.log2 num + 1) * 2 ^ (-last).toNat :=
            Nat.mul_lt_mul_of_pos_right hhigh (by positivity)
        _ = 2 ^ 53 := by
            rw [← pow_add]
            congr 1
            omega
    rw [Nat.div_one] at hround
    omega

/-- Integers of at most 65 bits are rounded to finite doubles. -/
theorem nearest_natural_lt {num : Nat} (h : num < 2 ^ 65) : double.nearest num 1 < double.infinity := by
  by_cases hn : num = 0
  · subst hn
    decide
  have hlog : Nat.log2 num < 65 := (Nat.log2_lt hn).mpr h
  have hplace : ¬((Nat.log2 num : Int) - ((double.width : Int) - 1) < double.lowest) := by
    unfold double
    dsimp only
    omega
  have hwidth : (double.width : Int) - 1 = 52 := rfl
  unfold Format.nearest
  rw [if_neg hn, log2Ratio_one hn]
  dsimp only
  rw [if_neg hplace, hwidth]
  obtain ⟨last, hlast⟩ : ∃ last : Int, last = (Nat.log2 num : Int) - 52 := ⟨_, rfl⟩
  rw [← hlast]
  have hsignificand := significand_le hlast
  have hexponent : (last - double.lowest).toNat ≤ 1086 := by
    unfold double
    dsimp only
    omega
  have hshift : (last - double.lowest).toNat <<< (double.width - 1) ≤ 1086 * 2 ^ 52 := by
    rw [Nat.shiftLeft_eq]
    exact Nat.mul_le_mul_right _ hexponent
  generalize (if 0 ≤ last then roundHalfEven num (1 <<< last.toNat)
      else roundHalfEven (num <<< (-last).toNat) 1) = significand at hsignificand ⊢
  generalize (last - double.lowest).toNat <<< (double.width - 1) = shifted at hshift ⊢
  have hinf := infinity_double
  rw [hinf, if_neg (by omega)]
  omega

/-- Numerator and denominator of `m * 2 ^ e` are in this ratio. -/
lemma dyadic_value (m : Nat) (e : Int) :
    (dyadic m e).2 ≠ 0 ∧ ((dyadic m e).1 : ℚ) = m * 2 ^ e * (dyadic m e).2 := by
  unfold dyadic
  by_cases he : 0 ≤ e
  · obtain ⟨n, rfl⟩ := Int.eq_ofNat_of_zero_le he
    simp [Nat.shiftLeft_eq]
  · obtain ⟨n, hn⟩ := Int.eq_ofNat_of_zero_le (show 0 ≤ -e by omega)
    have he' : e = -(n : Int) := by omega
    rw [if_neg he, hn, he']
    simp [Nat.shiftLeft_eq]

/-- Doubles have every significand of at most 53 bits with every exponent that is not extreme. -/
theorem double_of_dyadic {m : Nat} {e : Int} (hm : m < 2 ^ 53) (hlow : -1022 ≤ e) (hhigh : e ≤ 105) :
    ∃ M E, Normal double M E ∧ patternOf double M E < double.infinity ∧
      (M : ℚ) * 2 ^ E = m * 2 ^ e := by
  by_cases hzero : m = 0
  · subst hzero
    exact ⟨0, double.lowest, ⟨by decide, le_rfl, Or.inl rfl⟩, by decide, by simp⟩
  · have hsize : Nat.log2 m < 53 := (Nat.log2_lt hzero).mpr hm
    have hleft := Nat.log2_self_le hzero
    have hright := Nat.lt_log2_self (n := m)
    obtain ⟨k, hk⟩ : ∃ k, k = 52 - Nat.log2 m := ⟨_, rfl⟩
    have hleast : 2 ^ 52 ≤ m * 2 ^ k := by
      calc 2 ^ 52 = 2 ^ Nat.log2 m * 2 ^ k := by
            rw [← pow_add]
            congr 1
            omega
        _ ≤ m * 2 ^ k := Nat.mul_le_mul_right _ hleft
    have hmost : m * 2 ^ k < 2 ^ 53 := by
      calc m * 2 ^ k < 2 ^ (Nat.log2 m + 1) * 2 ^ k :=
            Nat.mul_lt_mul_of_pos_right hright (by positivity)
        _ = 2 ^ 53 := by
            rw [← pow_add]
            congr 1
            omega
    refine ⟨m * 2 ^ k, e - k, ⟨hmost, ?_, Or.inr hleast⟩, ?_, ?_⟩
    · change -1074 ≤ e - k
      omega
    · change (e - k - -1074).toNat * 2 ^ 52 + m * 2 ^ k < 0x7ff0000000000000
      have hplace : (e - k - -1074).toNat ≤ 1179 := by omega
      have hstep := Nat.mul_le_mul_right (2 ^ 52) hplace
      omega
    · push_cast
      rw [mul_assoc, ← zpow_natCast, ← zpow_add₀ (by norm_num : (2 : ℚ) ≠ 0)]
      congr 2
      omega

lemma exponent_range_single {m : Nat} {e : Int} (h : Normal single m e)
    (hp : patternOf single m e < single.infinity) : -149 ≤ e ∧ e ≤ 105 := by
  have hl := h.lowest
  unfold single at hl
  refine ⟨hl, ?_⟩
  unfold patternOf single at hp
  dsimp only at hp hl
  omega

end WideDeep.Proofs
