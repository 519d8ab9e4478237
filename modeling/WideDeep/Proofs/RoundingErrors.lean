import Mathlib.Tactic
import WideDeep.Proofs.MonotoneRounding

/-!
# Errors of rounding

Numbers of up to 53 bits are doubles. What is rounded to a double stays between such neighbours, so it
errs by less than a unit in the last place.
-/

namespace WideDeep.Proofs
open Binary

variable {v : ℚ}

/-- A number of at most 53 bits is a double. -/
lemma nearestTo_dyadic {m : Nat} {e : Int} (hm : m ≤ 2 ^ 53) (hlow : -1022 ≤ e) (hhigh : e ≤ 104) :
    nearestTo (m * 2 ^ e) < double.infinity ∧ valueOf (nearestTo (m * 2 ^ e)) = m * 2 ^ e := by
  have hfits : ∃ m' : Nat, ∃ e' : Int, m' < 2 ^ 53 ∧ -1022 ≤ e' ∧ e' ≤ 105 ∧
      (m' : ℚ) * 2 ^ e' = m * 2 ^ e := by
    rcases hm.lt_or_eq with hlt | rfl
    · exact ⟨m, e, hlt, hlow, by omega, rfl⟩
    · refine ⟨2 ^ 52, e + 1, by norm_num, by omega, by omega, ?_⟩
      rw [zpow_add₀ (by norm_num)]
      push_cast
      ring
  obtain ⟨m', e', hm', hlow', hhigh', hsame⟩ := hfits
  obtain ⟨M, E, hnormal, hpattern, hvalue⟩ := double_of_dyadic hm' hlow' hhigh'
  have hparts := parts_patternOf double (by decide) hnormal hpattern
  have hexact := nearestTo_valueOf hpattern
  rw [valueOf_eq hparts, hvalue, hsame] at hexact
  rw [hexact, valueOf_eq hparts, hvalue, hsame]
  exact ⟨hpattern, rfl⟩

lemma nearestTo_natCast {n : Nat} (h : n ≤ 2 ^ 53) :
    nearestTo n < double.infinity ∧ valueOf (nearestTo n) = n := by
  simpa using nearestTo_dyadic (e := 0) h (by norm_num) (by norm_num)

lemma nearestTo_power {k : Nat} (hk : k ≤ 156) :
    nearestTo (2 ^ k) < double.infinity ∧ valueOf (nearestTo (2 ^ k)) = 2 ^ k := by
  have hvalue : ((2 ^ 52 : Nat) : ℚ) * 2 ^ ((k : Int) - 52) = 2 ^ k := by
    rw [zpow_sub₀ (by norm_num), zpow_natCast]
    norm_num
    ring
  have hdyadic := nearestTo_dyadic (m := 2 ^ 52) (e := (k : Int) - 52) (by norm_num) (by omega) (by omega)
  rwa [hvalue] at hdyadic

/-- What is rounded from a number up to a power of two is finite and not above that power. -/
lemma nearestTo_le_power {k : Nat} (hk : k ≤ 156) (hv : 0 ≤ v) (h : v ≤ 2 ^ k) :
    nearestTo v < double.infinity ∧ valueOf (nearestTo v) ≤ 2 ^ k := by
  obtain ⟨hfinite, hvalue⟩ := nearestTo_power hk
  have hle := nearestTo_mono hv h
  refine ⟨hle.trans_lt hfinite, ?_⟩
  rw [← hvalue]
  exact valueOf_mono hfinite hle

/-- What is rounded from a number that reaches one reaches one. -/
lemma one_le_nearestTo (h : 1 ≤ v) (hfinite : nearestTo v < double.infinity) :
    1 ≤ valueOf (nearestTo v) := by
  have hone := (nearestTo_power (k := 0) (by norm_num)).2
  rw [pow_zero] at hone
  rw [← hone]
  exact valueOf_mono hfinite (nearestTo_mono zero_le_one h)

/-- A number that is neither tiny nor huge lies between two neighbours of 53 bits, and is at least
`2 ^ 52` times their distance. -/
lemma exists_neighbours (hlow : 2 ^ (-100 : Int) ≤ v) (hhigh : v < 2 ^ (100 : Int)) :
    ∃ m : Nat, ∃ e : Int, m < 2 ^ 53 ∧ -1022 ≤ e ∧ e ≤ 104 ∧ (m : ℚ) * 2 ^ e ≤ v ∧
      v ≤ (m + 1 : Nat) * 2 ^ e ∧ (2 : ℚ) ^ e * 2 ^ 52 ≤ v := by
  have hv : 0 < v := lt_of_lt_of_le (by positivity) hlow
  obtain ⟨e, he⟩ : ∃ e : Int, Int.log 2 v = e + 52 := ⟨Int.log 2 v - 52, by omega⟩
  have hunit : (0 : ℚ) < 2 ^ e := by positivity
  have hquotient : 0 ≤ v / 2 ^ e := by positivity
  have hleast : (2 : ℚ) ^ e * 2 ^ 52 ≤ v := by
    have hlog := Int.zpow_log_le_self (b := 2) (by norm_num) hv
    rwa [he, Nat.cast_ofNat, zpow_add₀ (by norm_num)] at hlog
  have hmost : v < 2 ^ e * 2 ^ 53 := by
    have hlog := Int.lt_zpow_succ_log_self (b := 2) (by norm_num) v
    rwa [he, Nat.cast_ofNat, add_assoc, zpow_add₀ (by norm_num)] at hlog
  have hfirst : -100 ≤ Int.log 2 v := (Int.zpow_le_iff_le_log (by norm_num) hv).mp hlow
  have hlast : Int.log 2 v < 100 := (Int.lt_zpow_iff_log_lt (by norm_num) hv).mp hhigh
  refine ⟨⌊v / 2 ^ e⌋₊, e, ?_, by omega, by omega, ?_, ?_, hleast⟩
  · rw [Nat.floor_lt hquotient, div_lt_iff₀ hunit, mul_comm]
    exact_mod_cast hmost
  · rw [← le_div_iff₀ hunit]
    exact Nat.floor_le hquotient
  · rw [← div_le_iff₀ hunit]
    exact_mod_cast (Nat.lt_floor_add_one (v / 2 ^ e)).le

/-- Rounding errs by less than a unit in the last place. -/
theorem nearestTo_error (hlow : 2 ^ (-100 : Int) ≤ v) (hhigh : v < 2 ^ (100 : Int)) :
    nearestTo v < double.infinity ∧ |valueOf (nearestTo v) - v| ≤ v / 2 ^ 52 := by
  have hv : 0 < v := lt_of_lt_of_le (by positivity) hlow
  obtain ⟨m, e, hbits, hleast, hmost, hbelow, habove, hunit⟩ := exists_neighbours hlow hhigh
  obtain ⟨-, hfloor⟩ := nearestTo_dyadic hbits.le hleast hmost
  obtain ⟨hfinite, hceil⟩ := nearestTo_dyadic (Nat.succ_le_of_lt hbits) hleast hmost
  -- what is rounded stays between the neighbours, since these are doubles
  have hrounded := nearestTo_mono hv.le habove
  have hlower : (m : ℚ) * 2 ^ e ≤ valueOf (nearestTo v) :=
    hfloor ▸ valueOf_mono (hrounded.trans_lt hfinite) (nearestTo_mono (by positivity) hbelow)
  have hupper : valueOf (nearestTo v) ≤ (m + 1 : Nat) * 2 ^ e :=
    hceil ▸ valueOf_mono hfinite hrounded
  push_cast at hupper habove
  have hgap : |valueOf (nearestTo v) - v| ≤ 2 ^ e := by
    rw [abs_le]
    constructor <;> linarith
  refine ⟨hrounded.trans_lt hfinite, ?_⟩
  rw [le_div_iff₀ (by positivity)]
  exact (mul_le_mul_of_nonneg_right hgap (by positivity)).trans hunit

end WideDeep.Proofs
