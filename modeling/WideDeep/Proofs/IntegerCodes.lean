import Mathlib.Tactic
import WideDeep.Proofs.BatchInputs
import WideDeep.Proofs.NumberLine
import WideDeep.Proofs.NumberTexts

/-!
# Integer codes

A double has the key of an integer exactly if it equals that integer. Up to `2 ^ 53` every integer is
equal to the double nearest to it, so a code means the same to a column whether it is held as an integer
or as a double.
-/

namespace WideDeep.Proofs
open Binary

section Values

variable {x : Float} {n : Int} {m k : Nat} {e : Int} {negative : Bool}

lemma finitePlace_inj {q r : ℚ} : finitePlace q = finitePlace r ↔ q = r := by
  unfold finitePlace
  rw [WithBot.coe_inj, WithTop.coe_inj]

lemma infinitePlace_ne (negative : Bool) (q : ℚ) : infinitePlace negative ≠ finitePlace q := by
  cases negative with
  | true => exact (infinitePlace_lt q).1.ne
  | false => exact (infinitePlace_lt q).2.ne'

/-- A dyadic number is whole if its numerator is a multiple of its denominator. -/
lemma dyadic_whole : (dyadic m e).1 = k * (dyadic m e).2 ↔ (m : ℚ) * 2 ^ e = k := by
  obtain ⟨hden, hratio⟩ := dyadic_value m e
  have hdenq : ((dyadic m e).2 : ℚ) ≠ 0 := by exact_mod_cast hden
  rw [← mul_left_inj' hdenq, ← hratio]
  norm_cast

/-- When a finite double is read as an integer, and as which. -/
lemma integer?_finite (hshape : shape x = .finite negative m e) :
    integer? x = some n ↔ ∃ k : Nat, (m : ℚ) * 2 ^ e = k ∧ (if negative then -(k : Int) else k) = n := by
  have hpos : 0 < (dyadic m e).2 := Nat.pos_of_ne_zero (dyadic_value m e).1
  unfold integer?
  rw [hshape]
  dsimp only
  constructor
  · intro h
    by_cases hwhole : (dyadic m e).1 % (dyadic m e).2 = 0
    · rw [if_pos hwhole] at h
      refine ⟨(dyadic m e).1 / (dyadic m e).2, dyadic_whole.mp ?_, Option.some.inj h⟩
      exact (Nat.div_mul_cancel (Nat.dvd_of_mod_eq_zero hwhole)).symm
    · rw [if_neg hwhole] at h
      cases h
  · rintro ⟨k, hvalue, rfl⟩
    rw [dyadic_whole.mpr hvalue, if_pos (Nat.mul_mod_left _ _), Nat.mul_div_cancel _ hpos]

/-- A double is read as the integer that it equals. -/
theorem integer?_eq_some : integer? x = some n ↔ placeOf x = some (finitePlace n) := by
  cases hshape : shape x with
  | nan => simp [integer?, placeOf, hshape]
  | infinite negative => simp [integer?, placeOf, hshape, infinitePlace_ne]
  | finite negative m e =>
    have hnonneg : (0 : ℚ) ≤ m * 2 ^ e := by positivity
    unfold placeOf
    rw [integer?_finite hshape, hshape]
    dsimp only
    rw [Option.some.injEq, finitePlace_inj]
    constructor
    · rintro ⟨k, hvalue, rfl⟩
      rw [hvalue]
      split_ifs <;> push_cast <;> rfl
    · intro h
      have hmagnitude : (m : ℚ) * 2 ^ e = n.natAbs := by
        rw [Nat.cast_natAbs, Int.cast_abs, ← h]
        split_ifs
        · rw [abs_neg, abs_of_nonneg hnonneg]
        · rw [abs_of_nonneg hnonneg]
      refine ⟨n.natAbs, hmagnitude, ?_⟩
      cases negative with
      | true =>
        have hsign : (n : ℚ) ≤ 0 := h ▸ neg_nonpos.mpr hnonneg
        have hle : n ≤ 0 := by exact_mod_cast hsign
        rw [if_pos rfl]
        omega
      | false =>
        have hsign : (0 : ℚ) ≤ n := h ▸ hnonneg
        have hle : 0 ≤ n := by exact_mod_cast hsign
        rw [if_neg Bool.false_ne_true]
        omega

/-- The integers up to `2 ^ 53` are doubles. -/
theorem placeOf_doubleOfInt (h : n.natAbs ≤ 2 ^ 53) : placeOf (doubleOfInt n) = some (finitePlace n) := by
  rw [← integer?_eq_some]
  rcases h.lt_or_eq with hlt | heq
  · exact integer?_doubleOfInt hlt
  · rcases Int.natAbs_eq_iff.mp heq with rfl | rfl
    · decide +kernel
    · decide +kernel

end Values

section Keys

variable {x : Float} {m n : Int}

/-- A double has the key of an integer exactly if it equals it. -/
theorem key?_int_eq_real : (Raw.int m).key? = (Raw.real x).key? ↔ placeOf x = some (finitePlace m) := by
  rw [← integer?_eq_some]
  unfold Raw.key? Raw.shown
  dsimp only
  cases hnan : isNaN x with
  | true =>
    have hinteger : integer? x = none := by
      rw [eq_nan_of_isNaN hnan]
      decide +kernel
    simp [hinteger]
  | false =>
    cases hinteger : integer? x with
    | none =>
      rw [if_neg Bool.false_ne_true, Option.some.injEq]
      exact iff_of_false (render_ne_toString x m).symm (by simp)
    | some k =>
      rw [if_neg Bool.false_ne_true, Option.some.injEq, Option.some.injEq, toString_int_inj, eq_comm]

/-- A code up to `2 ^ 53` is read alike as an integer and as a double. -/
theorem alike_code (h : n.natAbs ≤ 2 ^ 53) : Alike (.real (doubleOfInt n)) (.int n) where
  number := by
    have hbound : n.natAbs < 2 ^ 65 := h.trans_lt (by decide)
    exact number?_toReal (v := .int n) fun k hk => by cases hk; exact isFinite_doubleOfInt hbound
  key := (key?_int_eq_real.mpr (placeOf_doubleOfInt h)).symm

end Keys

/-- Integers up to `2 ^ 53` are doubles, and an integer and its double mean the same to every column:
they have one key, one number in every index of categories, one bin, one weight of evidence of each kind
and one normalized value of each kind. Of all integers and all doubles, those have a common key that are
equal. -/
theorem integer_codes :
    (∀ n : Int, n.natAbs ≤ 2 ^ 53 →
      let code := Raw.int n
      let stored := Raw.real (doubleOfInt n)
      placeOf (doubleOfInt n) = some (finitePlace n) ∧ stored.key? = code.key? ∧
      (∀ index : CategoryIndex, index.number stored = index.number code) ∧
      ∀ c : ColumnStats,
        (∀ index, c.binWith? index stored = c.binWith? index code) ∧
        c.bin? stored = c.bin? code ∧
        (∀ e, c.evidenceOf e stored = c.evidenceOf e code) ∧
        ∀ kind, c.normalize kind stored = c.normalize kind code) ∧
    ∀ (m : Int) (x : Float),
      (Raw.int m).key? = (Raw.real x).key? ↔ placeOf x = some (finitePlace m) := by
  refine ⟨fun n hn => ?_, fun m x => key?_int_eq_real⟩
  have halike := alike_code hn
  refine ⟨placeOf_doubleOfInt hn, halike.key, halike.number_eq, fun c => ?_⟩
  exact ⟨halike.binWith?_eq c, halike.binWith?_eq c _, halike.evidenceOf_eq c, halike.normalize_eq c⟩

section Sample

/-- A hybrid column with a code for a label that its boundaries do not reach. -/
def hybridCodes : ColumnStats where
  number := 0
  name := some "code"
  kind := .hybrid
  mean := 0
  stddev := 1
  cutoff := 4
  boundaries := [0, 10]
  labels := ["9007199254740992"]
  countEvidence := [0.5, 0.25, 0.125, 0]
  weightedEvidence := []
  evidenceMean := 0
  evidenceStddev := 1
  weightedMean := 0
  weightedStddev := 1
  countEvidence_fits := rfl
  weightedEvidence_fits := rfl

/-- As a double `2 ^ 53` still has the bin of its label, and negative zero has the key of zero. The next
integer has another key than the double nearest to it. -/
theorem integer_codes_limit :
    (2 ^ 53 : Int).natAbs ≤ 2 ^ 53 ∧
    hybridCodes.bin? (.real (doubleOfInt (2 ^ 53))) = .ok (some 2) ∧
    (Raw.int 0).key? = (Raw.real (doubleOfPattern true 0)).key? ∧
    (Raw.int (2 ^ 53 + 1)).key? ≠ (Raw.real (doubleOfInt (2 ^ 53 + 1))).key? := by
  have hlimit : (2 ^ 53 : Int).natAbs ≤ 2 ^ 53 := by decide
  have hlabel : hybridCodes.bin? (.int (2 ^ 53)) = .ok (some 2) := by decide +kernel
  have hzero : integer? (doubleOfPattern true 0) = some 0 := by decide +kernel
  have hnext : integer? (doubleOfInt (2 ^ 53 + 1)) = some (2 ^ 53) := by decide +kernel
  obtain ⟨-, -, -, hcolumns⟩ := integer_codes.1 (2 ^ 53) hlimit
  refine ⟨hlimit, (hcolumns hybridCodes).2.1.trans hlabel,
    (integer_codes.2 0 _).mpr (integer?_eq_some.mp hzero), fun hkey => ?_⟩
  have hequal := integer?_eq_some.mpr ((integer_codes.2 (2 ^ 53 + 1) _).mp hkey)
  rw [hnext] at hequal
  cases hequal

end Sample

end WideDeep.Proofs
