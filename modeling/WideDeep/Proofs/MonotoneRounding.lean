import Mathlib.Tactic
import WideDeep.Proofs.ExactRounding

/-!
# Rounding keeps the order

A greater ratio is never rounded to a lesser pattern, and a greater pattern stands for a greater
number. So bounds on exact values become bounds on what they are rounded to.
-/

namespace WideDeep.Proofs
open Binary

section Integers

variable {num den num' den' : Nat}

lemma le_roundHalfEven (num den : Nat) : num / den ≤ roundHalfEven num den := by
  unfold roundHalfEven
  dsimp only
  split
  · exact le_rfl
  · split
    · omega
    · split <;> omega

lemma cast_div_le_iff (hd : 0 < den) (hd' : 0 < den') :
    (num : ℚ) / den ≤ num' / den' ↔ num * den' ≤ num' * den := by
  have hdq : (0 : ℚ) < den := by exact_mod_cast hd
  have hdq' : (0 : ℚ) < den' := by exact_mod_cast hd'
  rw [div_le_div_iff₀ hdq hdq']
  exact_mod_cast Iff.rfl

/-- The integer nearest to a ratio does not shrink when the ratio grows. -/
theorem roundHalfEven_mono (hd : 0 < den) (hd' : 0 < den') (h : (num : ℚ) / den ≤ num' / den') :
    roundHalfEven num den ≤ roundHalfEven num' den' := by
  rw [cast_div_le_iff hd hd'] at h
  have hfloor : num / den ≤ num' / den' := by
    rw [Nat.le_div_iff_mul_le hd']
    refine Nat.le_of_mul_le_mul_right ?_ hd
    calc num / den * den' * den = num / den * den * den' := by ring
      _ ≤ num * den' := Nat.mul_le_mul_right _ (Nat.div_mul_le_self num den)
      _ ≤ num' * den := h
  rcases hfloor.lt_or_eq with hlt | heq
  · exact (roundHalfEven_le num den).trans (hlt.trans_le (le_roundHalfEven num' den'))
  · -- The ratios have one floor, so their remainders are in the same order.
    have hrest : num % den * den' ≤ num' % den' * den := by
      have hnum : num * den' = num / den * (den * den') + num % den * den' := by
        conv_lhs => rw [← Nat.div_add_mod num den]
        ring
      have hnum' : num' * den = num' / den' * (den * den') + num' % den' * den := by
        conv_lhs => rw [← Nat.div_add_mod num' den']
        ring
      rw [hnum, hnum', heq] at h
      exact Nat.le_of_add_le_add_left h
    have hhalf : den ≤ 2 * (num % den) → den' ≤ 2 * (num' % den') := by
      intro hge
      refine Nat.le_of_mul_le_mul_right ?_ hd
      calc den' * den ≤ den' * (2 * (num % den)) := Nat.mul_le_mul_left _ hge
        _ = 2 * (num % den * den') := by ring
        _ ≤ 2 * (num' % den' * den) := Nat.mul_le_mul_left _ hrest
        _ = 2 * (num' % den') * den := by ring
    have hmore : den < 2 * (num % den) → den' < 2 * (num' % den') := by
      intro hgt
      refine Nat.lt_of_mul_lt_mul_right (a := den) ?_
      calc den' * den < den' * (2 * (num % den)) := Nat.mul_lt_mul_of_pos_left hgt hd'
        _ = 2 * (num % den * den') := by ring
        _ ≤ 2 * (num' % den' * den) := Nat.mul_le_mul_left _ hrest
        _ = 2 * (num' % den') * den := by ring
    unfold roundHalfEven
    simp only [heq]
    split_ifs <;> omega

lemma roundHalfEven_congr (hd : 0 < den) (hd' : 0 < den')
    (h : (num : ℚ) / den = num' / den') :
    roundHalfEven num den = roundHalfEven num' den' :=
  le_antisymm (roundHalfEven_mono hd hd' h.le) (roundHalfEven_mono hd' hd h.ge)

/-- A ratio that reaches an integer is rounded to that integer at least. -/
lemma le_roundHalfEven_of_le {n : Nat} (hd : 0 < den) (h : n * den ≤ num) :
    n ≤ roundHalfEven num den :=
  ((Nat.le_div_iff_mul_le hd).mpr h).trans (le_roundHalfEven num den)

/-- A ratio below an integer is rounded to that integer at most. -/
lemma roundHalfEven_le_of_lt {n : Nat} (hd : 0 < den) (h : num < n * den) :
    roundHalfEven num den ≤ n :=
  (roundHalfEven_le num den).trans ((Nat.div_lt_iff_lt_mul hd).mpr h)

end Integers

section Significands

variable {num den : Nat}

/-- The significand to which a ratio is rounded when its last place is given. -/
def significandAt (num den : Nat) (last : Int) : Nat :=
  if 0 ≤ last then roundHalfEven num (den <<< last.toNat)
  else roundHalfEven (num <<< (-last).toNat) den

/-- The significand is the integer nearest to the ratio in units of the last place. -/
lemma significandAt_eq (num : Nat) {den : Nat} (hd : 0 < den) (last : Int) :
    ∃ n d : Nat, 0 < d ∧ (n : ℚ) / d = num / den / 2 ^ last ∧
      significandAt num den last = roundHalfEven n d := by
  unfold significandAt
  by_cases hlast : 0 ≤ last
  · obtain ⟨k, rfl⟩ := Int.eq_ofNat_of_zero_le hlast
    refine ⟨num, den <<< k, ?_, ?_, ?_⟩
    · rw [Nat.shiftLeft_eq]
      positivity
    · rw [Nat.shiftLeft_eq]
      push_cast
      rw [zpow_natCast, div_div]
    · rw [if_pos hlast, Int.toNat_natCast]
  · obtain ⟨k, hk⟩ := Int.eq_ofNat_of_zero_le (show 0 ≤ -last by omega)
    refine ⟨num <<< k, den, hd, ?_, ?_⟩
    · have hneg : last = -(k : Int) := by omega
      rw [hneg, Nat.shiftLeft_eq, zpow_neg, zpow_natCast]
      push_cast
      field_simp
    · rw [if_neg hlast, hk, Int.toNat_natCast]

lemma significandAt_mono {num' den' : Nat} (hd : 0 < den) (hd' : 0 < den')
    (h : (num : ℚ) / den ≤ num' / den') (last : Int) :
    significandAt num den last ≤ significandAt num' den' last := by
  obtain ⟨n, d, hdpos, hvalue, heq⟩ := significandAt_eq num hd last
  obtain ⟨n', d', hdpos', hvalue', heq'⟩ := significandAt_eq num' hd' last
  rw [heq, heq']
  refine roundHalfEven_mono hdpos hdpos' ?_
  rw [hvalue, hvalue']
  gcongr

lemma significandAt_le {n : Nat} (hd : 0 < den) {last : Int}
    (h : (num : ℚ) / den < n * 2 ^ last) : significandAt num den last ≤ n := by
  obtain ⟨k, d, hdpos, hvalue, heq⟩ := significandAt_eq num hd last
  rw [heq]
  refine roundHalfEven_le_of_lt hdpos ?_
  have hdq : (0 : ℚ) < d := by exact_mod_cast hdpos
  have hlt : (k : ℚ) / d < n := by
    rw [hvalue, div_lt_iff₀ (by positivity)]
    exact h
  rw [div_lt_iff₀ hdq] at hlt
  exact_mod_cast hlt

lemma le_significandAt {n : Nat} (hd : 0 < den) {last : Int}
    (h : (n : ℚ) * 2 ^ last ≤ num / den) : n ≤ significandAt num den last := by
  obtain ⟨k, d, hdpos, hvalue, heq⟩ := significandAt_eq num hd last
  rw [heq]
  refine le_roundHalfEven_of_le hdpos ?_
  have hdq : (0 : ℚ) < d := by exact_mod_cast hdpos
  have hle : (n : ℚ) ≤ k / d := by
    rw [hvalue, le_div_iff₀ (by positivity)]
    exact h
  rw [le_div_iff₀ hdq] at hle
  exact_mod_cast hle

end Significands

section Patterns

variable (f : Format) {num den : Nat}

/-- The last place that a format keeps of a ratio. -/
def lastPlace (num den : Nat) : Int :=
  max (log2Ratio num den - ((f.width : Int) - 1)) f.lowest

/-- The pattern nearest to a ratio, from its last place and its significand. -/
lemma nearest_eq (hn : num ≠ 0) : f.nearest num den =
    min f.infinity ((lastPlace f num den - f.lowest).toNat * 2 ^ (f.width - 1) +
      significandAt num den (lastPlace f num den)) := by
  have hplace : lastPlace f num den =
      if log2Ratio num den - ((f.width : Int) - 1) < f.lowest then f.lowest
      else log2Ratio num den - ((f.width : Int) - 1) := by
    unfold lastPlace
    split <;> omega
  unfold Format.nearest significandAt
  rw [if_neg hn, hplace]
  dsimp only
  rw [Nat.shiftLeft_eq, min_def]

lemma lt_of_log2Ratio (hn : num ≠ 0) (hd : den ≠ 0) :
    (2 : ℚ) ^ log2Ratio num den ≤ num / den ∧ (num : ℚ) / den < 2 ^ (log2Ratio num den + 1) := by
  have hdpos : (0 : ℚ) < den := by exact_mod_cast Nat.pos_of_ne_zero hd
  obtain ⟨hlow, hhigh⟩ := log2Ratio_spec hn hd
  exact ⟨(le_div_iff₀' hdpos).mpr hlow, (div_lt_iff₀' hdpos).mpr hhigh⟩

/-- A significand exceeds the places of its format by a carry at most. -/
lemma significandAt_lastPlace_le (hn : num ≠ 0) (hd : den ≠ 0) :
    significandAt num den (lastPlace f num den) ≤ 2 ^ f.width := by
  refine significandAt_le (Nat.pos_of_ne_zero hd) ?_
  have hplace : log2Ratio num den + 1 ≤ f.width + lastPlace f num den := by
    unfold lastPlace
    omega
  calc (num : ℚ) / den < 2 ^ (log2Ratio num den + 1) := (lt_of_log2Ratio hn hd).2
    _ ≤ 2 ^ ((f.width : Int) + lastPlace f num den) := zpow_le_zpow_right₀ (by norm_num) hplace
    _ = ((2 ^ f.width : Nat) : ℚ) * 2 ^ lastPlace f num den := by
        rw [zpow_add₀ (by norm_num), zpow_natCast]
        push_cast
        rfl

/-- A significand uses all places of its format, unless its last place is the lowest one. -/
lemma le_significandAt_lastPlace (hw : 1 ≤ f.width) (hn : num ≠ 0) (hd : den ≠ 0) :
    lastPlace f num den = f.lowest ∨
      2 ^ (f.width - 1) ≤ significandAt num den (lastPlace f num den) := by
  by_cases hlowest : lastPlace f num den = f.lowest
  · exact Or.inl hlowest
  refine Or.inr (le_significandAt (Nat.pos_of_ne_zero hd) ?_)
  have hplace : ((f.width - 1 : Nat) : Int) + lastPlace f num den ≤ log2Ratio num den := by
    unfold lastPlace at hlowest ⊢
    omega
  calc ((2 ^ (f.width - 1) : Nat) : ℚ) * 2 ^ lastPlace f num den
      = 2 ^ (((f.width - 1 : Nat) : Int) + lastPlace f num den) := by
        rw [zpow_add₀ (by norm_num), zpow_natCast]
        push_cast
        rfl
    _ ≤ 2 ^ log2Ratio num den := zpow_le_zpow_right₀ (by norm_num) hplace
    _ ≤ num / den := (lt_of_log2Ratio hn hd).1

/-- Rounding to a format keeps the order of the ratios. -/
theorem nearest_mono (hw : 1 ≤ f.width) {num' den' : Nat} (hd : den ≠ 0) (hd' : den' ≠ 0)
    (h : (num : ℚ) / den ≤ num' / den') : f.nearest num den ≤ f.nearest num' den' := by
  by_cases hn : num = 0
  · subst hn
    exact Nat.zero_le _
  have hn' : num' ≠ 0 := by
    rintro rfl
    have hpos : (0 : ℚ) < num / den := by
      have hnum : (0 : ℚ) < num := by exact_mod_cast Nat.pos_of_ne_zero hn
      have hden : (0 : ℚ) < den := by exact_mod_cast Nat.pos_of_ne_zero hd
      positivity
    rw [Nat.cast_zero, zero_div] at h
    exact absurd h (not_le.mpr hpos)
  have hlog : log2Ratio num den ≤ log2Ratio num' den' := by
    have hlt : (2 : ℚ) ^ log2Ratio num den < 2 ^ (log2Ratio num' den' + 1) :=
      ((lt_of_log2Ratio hn hd).1.trans h).trans_lt (lt_of_log2Ratio hn' hd').2
    have hexp := (zpow_lt_zpow_iff_right₀ (by norm_num : (1 : ℚ) < 2)).mp hlt
    omega
  have hlast : lastPlace f num den ≤ lastPlace f num' den' := by
    unfold lastPlace
    omega
  rw [nearest_eq f hn, nearest_eq f hn']
  refine min_le_min le_rfl ?_
  rcases hlast.lt_or_eq with hlt | heq
  · -- The greater ratio lies in a higher binade, so the carry of the lesser one does not reach it.
    have hbase : f.lowest ≤ lastPlace f num den := le_max_right _ _
    have hmost := significandAt_lastPlace_le f hn hd
    have hleast := (le_significandAt_lastPlace f hw hn' hd').resolve_left (by omega)
    have hdouble : 2 ^ f.width = 2 * 2 ^ (f.width - 1) := by
      rw [← Nat.pow_succ']
      congr 1
      omega
    have hsteps : (lastPlace f num den - f.lowest).toNat + 1 ≤
        (lastPlace f num' den' - f.lowest).toNat := by
      omega
    have hmul := Nat.mul_le_mul_right (2 ^ (f.width - 1)) hsteps
    rw [Nat.succ_mul] at hmul
    omega
  · rw [heq]
    exact Nat.add_le_add_left
      (significandAt_mono (Nat.pos_of_ne_zero hd) (Nat.pos_of_ne_zero hd') h _) _

end Patterns

section Values

variable {f : Format} {p q m n : Nat} {d e : Int}

/-- A greater pattern stands for a greater number. -/
theorem value_le_of_pattern_le (hw : 1 ≤ f.width) (hm : Normal f m d) (hn : Normal f n e)
    (h : patternOf f m d ≤ patternOf f n e) : (m : ℚ) * 2 ^ d ≤ n * 2 ^ e := by
  have two : (2 : ℚ) ≠ 0 := by norm_num
  have hdouble : 2 ^ f.width = 2 * 2 ^ (f.width - 1) := by
    rw [← Nat.pow_succ']
    congr 1
    omega
  have hboundm := hm.bound
  have hboundn := hn.bound
  have hlowm := hm.lowest
  have hlown := hn.lowest
  unfold patternOf at h
  rcases lt_trichotomy d e with hlt | heq | hgt
  · have hfull : 2 ^ (f.width - 1) ≤ n := hn.full.resolve_left (by omega)
    calc (m : ℚ) * 2 ^ d ≤ ((2 ^ f.width : Nat) : ℚ) * 2 ^ d := by
          gcongr
      _ = 2 ^ ((f.width : Int) + d) := by
          rw [zpow_add₀ two, zpow_natCast]
          push_cast
          rfl
      _ ≤ 2 ^ (((f.width - 1 : Nat) : Int) + e) := zpow_le_zpow_right₀ (by norm_num) (by omega)
      _ = ((2 ^ (f.width - 1) : Nat) : ℚ) * 2 ^ e := by
          rw [zpow_add₀ two, zpow_natCast]
          push_cast
          rfl
      _ ≤ n * 2 ^ e := by
          gcongr
  · subst heq
    have hle : m ≤ n := Nat.le_of_add_le_add_left h
    gcongr
  · -- A higher exponent would need a greater pattern.
    have hfull : 2 ^ (f.width - 1) ≤ m := hm.full.resolve_left (by omega)
    have hsteps : (e - f.lowest).toNat + 1 ≤ (d - f.lowest).toNat := by omega
    have hmul := Nat.mul_le_mul_right (2 ^ (f.width - 1)) hsteps
    rw [Nat.succ_mul] at hmul
    omega

lemma normal_of_parts {p m : Nat} {e : Int} (hparts : double.parts? p = some (m, e)) :
    p < double.infinity ∧ Normal double m e ∧ patternOf double m e = p := by
  have hp : p < double.infinity := by
    by_contra hge
    unfold Format.parts? at hparts
    rw [if_pos (not_lt.mp hge)] at hparts
    cases hparts
  obtain ⟨m', e', hsame, hnormal, hpattern⟩ := parts_normal double (by decide) p hp
  rw [hparts] at hsame
  obtain ⟨rfl, rfl⟩ := Prod.mk.inj (Option.some.inj hsame)
  exact ⟨hp, hnormal, hpattern⟩

/-- The number that a double without sign stands for; zero if it is not finite. -/
def valueOf (p : Nat) : ℚ :=
  match double.parts? p with
  | some (m, e) => m * 2 ^ e
  | none => 0

/-- The double nearest to a number that is not negative. -/
def nearestTo (v : ℚ) : Nat :=
  double.nearest v.num.natAbs v.den

lemma valueOf_eq {p m : Nat} {e : Int} (hparts : double.parts? p = some (m, e)) :
    valueOf p = m * 2 ^ e := by
  unfold valueOf
  rw [hparts]

lemma valueOf_nonneg (p : Nat) : 0 ≤ valueOf p := by
  unfold valueOf
  split <;> positivity

lemma valueOf_mono {p q : Nat} (hq : q < double.infinity) (h : p ≤ q) : valueOf p ≤ valueOf q := by
  obtain ⟨m, d, hm, hmNormal, hmPattern⟩ := parts_normal double (by decide) p (h.trans_lt hq)
  obtain ⟨n, e, hn, hnNormal, hnPattern⟩ := parts_normal double (by decide) q hq
  rw [valueOf_eq hm, valueOf_eq hn]
  refine value_le_of_pattern_le (by decide) hmNormal hnNormal ?_
  rw [hmPattern, hnPattern]
  exact h

lemma ratio_eq {v : ℚ} (hv : 0 ≤ v) : (v.num.natAbs : ℚ) / v.den = v := by
  obtain ⟨n, hn⟩ := Int.eq_ofNat_of_zero_le (Rat.num_nonneg.mpr hv)
  conv_rhs => rw [← Rat.num_div_den v]
  rw [hn]
  simp

theorem nearestTo_mono {v w : ℚ} (hv : 0 ≤ v) (h : v ≤ w) : nearestTo v ≤ nearestTo w := by
  refine nearest_mono double (by decide) v.den_nz w.den_nz ?_
  rwa [ratio_eq hv, ratio_eq (hv.trans h)]

/-- The number of a double is rounded to that double. -/
theorem nearestTo_valueOf {p : Nat} (hp : p < double.infinity) : nearestTo (valueOf p) = p := by
  obtain ⟨m, e, hparts, hnormal, hpattern⟩ := parts_normal double (by decide) p hp
  have hratio := ratio_eq (valueOf_nonneg p)
  have hden : ((valueOf p).den : ℚ) ≠ 0 := by exact_mod_cast (valueOf p).den_nz
  unfold nearestTo
  rw [nearest_exact double (by decide) hnormal (valueOf p).den_nz ?_ (by rwa [hpattern]), hpattern]
  rw [← valueOf_eq hparts]
  exact (div_eq_iff hden).mp hratio

end Values

end WideDeep.Proofs
