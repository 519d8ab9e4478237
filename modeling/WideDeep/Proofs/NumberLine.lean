import Mathlib.Tactic
import WideDeep.Proofs.FloatBits
import WideDeep.Proofs.LeastErrors
import WideDeep.Proofs.MonotoneRounding

/-!
# Doubles on the number line

A double that is a number stands for a rational number or for one of the two infinities. The order of
doubles is the order of what they stand for.
-/

namespace WideDeep.Proofs
open Binary

/-- The rational numbers with both infinities. -/
abbrev NumberLine := WithBot (WithTop ℚ)

/-- A rational number on the line. -/
def finitePlace (q : ℚ) : NumberLine :=
  ((q : WithTop ℚ) : NumberLine)

def infinitePlace (negative : Bool) : NumberLine :=
  if negative then ⊥ else ⊤

/-- What a double stands for; nothing if it is not a number. -/
def placeOf (x : Float) : Option NumberLine :=
  match shape x with
  | .nan => none
  | .infinite negative => some (infinitePlace negative)
  | .finite negative m e =>
    some (finitePlace (if negative then -((m : ℚ) * 2 ^ e) else (m : ℚ) * 2 ^ e))

def AtMost (x y : Float) : Prop :=
  ∃ a b, placeOf x = some a ∧ placeOf y = some b ∧ a ≤ b

def Below (x y : Float) : Prop :=
  ∃ a b, placeOf x = some a ∧ placeOf y = some b ∧ a < b

section Ranks

variable {x y : Float} {a b : Int} {p q : Nat}

/-- What the doubles of a rank stand for. -/
def placeOfRank (r : Int) : NumberLine :=
  if r.natAbs < double.infinity then
    finitePlace (if r < 0 then -valueOf r.natAbs else valueOf r.natAbs)
  else infinitePlace (r < 0)

lemma finitePlace_lt {q r : ℚ} : finitePlace q < finitePlace r ↔ q < r := by
  unfold finitePlace
  rw [WithBot.coe_lt_coe, WithTop.coe_lt_coe]

lemma valueOf_lt (hq : q < double.infinity) (h : p < q) : valueOf p < valueOf q := by
  refine lt_of_le_of_ne (valueOf_mono hq h.le) fun heq => ?_
  have hp := nearestTo_valueOf (h.trans hq)
  rw [heq, nearestTo_valueOf hq] at hp
  omega

lemma valueOf_zero : valueOf 0 = 0 := by
  have hparts : double.parts? 0 = some (0, -1074) := by decide
  rw [valueOf_eq hparts, Nat.cast_zero, zero_mul]

lemma infinitePlace_lt (q : ℚ) : infinitePlace true < finitePlace q ∧ finitePlace q < infinitePlace false :=
  ⟨WithBot.bot_lt_coe _, WithBot.coe_lt_coe.mpr (WithTop.coe_lt_top q)⟩

/-- The signed number of a finite rank grows with the rank. -/
lemma signed_lt (ha : a.natAbs < double.infinity) (hb : b.natAbs < double.infinity) (h : a < b) :
    (if a < 0 then -valueOf a.natAbs else valueOf a.natAbs) <
      (if b < 0 then -valueOf b.natAbs else valueOf b.natAbs) := by
  by_cases hnegative : a < 0
  · rw [if_pos hnegative]
    by_cases hboth : b < 0
    · rw [if_pos hboth]
      exact neg_lt_neg (valueOf_lt ha (by omega))
    · have hpositive : 0 < valueOf a.natAbs := by
        rw [← valueOf_zero]
        exact valueOf_lt ha (by omega)
      rw [if_neg hboth]
      exact (neg_neg_of_pos hpositive).trans_le (valueOf_nonneg _)
  · rw [if_neg hnegative, if_neg (by omega)]
    exact valueOf_lt hb (by omega)

/-- A greater rank stands for a greater number. -/
theorem placeOfRank_lt (ha : a.natAbs ≤ double.infinity) (hb : b.natAbs ≤ double.infinity) (h : a < b) :
    placeOfRank a < placeOfRank b := by
  unfold placeOfRank
  by_cases hfinite : a.natAbs < double.infinity
  · rw [if_pos hfinite]
    by_cases hboth : b.natAbs < double.infinity
    · rw [if_pos hboth, finitePlace_lt]
      exact signed_lt hfinite hboth h
    · rw [if_neg hboth, decide_eq_false (by omega)]
      exact (infinitePlace_lt _).2
  · have hlowest : a < 0 := by omega
    rw [if_neg hfinite, decide_eq_true hlowest]
    by_cases hboth : b.natAbs < double.infinity
    · rw [if_pos hboth]
      exact (infinitePlace_lt _).1
    · rw [if_neg hboth, decide_eq_false (by omega)]
      exact (infinitePlace_lt 0).1.trans (infinitePlace_lt 0).2

lemma rank_doubleOfPattern (s : Bool) (hp : p ≤ double.infinity) :
    rank (doubleOfPattern s p) = some (if s then -(p : Int) else p) := by
  have hlt : p < doubleSign := lt_of_le_of_lt hp (by decide)
  unfold rank
  simp only [toBits_doubleOfPattern s hp, signedPattern]
  cases s <;> simp [hlt, hp]

lemma rank_nan : rank nan = none := by
  decide +kernel

lemma placeOf_nan : placeOf nan = none := by
  have hshape : shape nan = .nan := by decide +kernel
  unfold placeOf
  rw [hshape]

/-- What a double stands for is a matter of its rank. -/
theorem placeOf_eq (x : Float) : placeOf x = (rank x).map placeOfRank := by
  rcases double_cases x with rfl | ⟨s, p, hp, rfl⟩
  · rw [rank_nan, placeOf_nan]
    rfl
  · rw [rank_doubleOfPattern s hp, Option.map_some]
    unfold placeOf placeOfRank
    rw [shape_doubleOfPattern s hp]
    have habs : (if s then -(p : Int) else p).natAbs = p := by cases s <;> simp
    have hnonneg : ¬(p : Int) < 0 := by omega
    rw [habs]
    by_cases hfinite : p < double.infinity
    · obtain ⟨m, e, hparts, -, -⟩ := parts_normal double (by decide) p hfinite
      have hvalue := valueOf_eq hparts
      rw [if_pos hfinite]
      unfold Format.shape
      rw [hparts]
      dsimp only
      rw [← hvalue]
      cases s with
      | false => simp [hnonneg]
      | true =>
        by_cases hzero : p = 0
        · simp [hzero, valueOf_zero]
        · simp [Nat.pos_of_ne_zero hzero]
    · have hinfinite : p = double.infinity := le_antisymm hp (not_lt.mp hfinite)
      rw [if_neg hfinite, shape_beyond (not_lt.mp hfinite), if_pos hinfinite]
      have hpositive : 0 < p := by
        rw [hinfinite]
        decide
      cases s <;> simp [hpositive, hnonneg]

lemma rank_bounds (h : rank x = some a) : a.natAbs ≤ double.infinity := by
  rcases double_cases x with rfl | ⟨s, p, hp, rfl⟩
  · rw [rank_nan] at h
    cases h
  · rw [rank_doubleOfPattern s hp] at h
    rw [← Option.some.inj h]
    cases s <;> simpa using hp

end Ranks

section Order

variable {x y z : Float}

lemma placeOf_eq_some {u : NumberLine} : placeOf x = some u ↔ ∃ a, rank x = some a ∧ placeOfRank a = u := by
  rw [placeOf_eq, Option.map_eq_some_iff]

/-- Doubles are compared as what they stand for. -/
theorem less_iff_below : less x y = true ↔ Below x y := by
  rw [less_iff]
  constructor
  · rintro ⟨a, b, ha, hb, hab⟩
    exact ⟨_, _, placeOf_eq_some.mpr ⟨a, ha, rfl⟩, placeOf_eq_some.mpr ⟨b, hb, rfl⟩,
      placeOfRank_lt (rank_bounds ha) (rank_bounds hb) hab⟩
  · rintro ⟨u, v, hu, hv, huv⟩
    obtain ⟨a, ha, rfl⟩ := placeOf_eq_some.mp hu
    obtain ⟨b, hb, rfl⟩ := placeOf_eq_some.mp hv
    refine ⟨a, b, ha, hb, ?_⟩
    rcases lt_trichotomy a b with hlt | rfl | hgt
    · exact hlt
    · exact absurd huv (lt_irrefl _)
    · exact absurd (placeOfRank_lt (rank_bounds hb) (rank_bounds ha) hgt) huv.asymm

lemma exists_place (h : isNaN x = false) : ∃ u, placeOf x = some u := by
  unfold isNaN at h
  unfold placeOf
  cases hshape : shape x with
  | nan =>
    rw [hshape] at h
    cases h
  | infinite s => exact ⟨_, rfl⟩
  | finite s m e => exact ⟨_, rfl⟩

lemma atMost_iff (hx : isNaN x = false) (hy : isNaN y = false) : AtMost x y ↔ ¬Below y x := by
  obtain ⟨u, hu⟩ := exists_place hx
  obtain ⟨v, hv⟩ := exists_place hy
  unfold AtMost Below
  rw [hu, hv]
  simp

lemma AtMost.trans (h : AtMost x y) (h' : AtMost y z) : AtMost x z := by
  obtain ⟨a, b, ha, hb, hab⟩ := h
  obtain ⟨b', c, hb', hc, hbc⟩ := h'
  cases hb.symm.trans hb'
  exact ⟨a, c, ha, hc, hab.trans hbc⟩

lemma Below.of_atMost (h : Below x y) (h' : AtMost y z) : Below x z := by
  obtain ⟨a, b, ha, hb, hab⟩ := h
  obtain ⟨b', c, hb', hc, hbc⟩ := h'
  cases hb.symm.trans hb'
  exact ⟨a, c, ha, hc, hab.trans_le hbc⟩

lemma AtMost.not_below (h : AtMost x y) : ¬Below y x := by
  obtain ⟨a, b, ha, hb, hab⟩ := h
  rintro ⟨b', a', hb', ha', hlt⟩
  cases hb.symm.trans hb'
  cases ha.symm.trans ha'
  exact absurd hlt (not_lt.mpr hab)

end Order

end WideDeep.Proofs
