import Mathlib.Tactic
import WideDeep.Binary.Real

/-!
# The least of several errors

Of the errors of a run, those that are numbers below positive infinity count. The best epoch is the
first one at which the least of them is reached.
-/

namespace WideDeep.Proofs
open Binary

section Order

variable {x y z : Float}

/-- Neither a not-a-number nor positive infinity. -/
def Counts (x : Float) : Bool :=
  match shape x with
  | .nan => false
  | .infinite negative => negative
  | .finite _ _ _ => true

lemma less_iff : less x y = true ↔ ∃ a b, rank x = some a ∧ rank y = some b ∧ a < b := by
  unfold less
  cases rank x <;> cases rank y <;> simp

lemma less_asymm (h : less x y = true) : less y x = false := by
  obtain ⟨a, b, ha, hb, hab⟩ := less_iff.mp h
  unfold less
  rw [ha, hb]
  exact decide_eq_false (not_lt.mpr hab.le)

lemma less_trans (h : less x y = true) (h' : less y z = true) : less x z = true := by
  obtain ⟨a, b, ha, hb, hab⟩ := less_iff.mp h
  obtain ⟨b', c, hb', hc, hbc⟩ := less_iff.mp h'
  cases hb.symm.trans hb'
  exact less_iff.mpr ⟨a, c, ha, hc, hab.trans hbc⟩

/-- What is below a number is below every other that is not below that number. -/
lemma less_of_not_less (h : less x y = true) (hz : (rank z).isSome) (h' : less z y = false) :
    less x z = true := by
  obtain ⟨a, b, ha, hb, hab⟩ := less_iff.mp h
  obtain ⟨c, hc⟩ := Option.isSome_iff_exists.mp hz
  have hbc : b ≤ c := by
    by_contra hlt
    rw [less_iff.mpr ⟨c, b, hc, hb, not_le.mp hlt⟩] at h'
    cases h'
  exact less_iff.mpr ⟨a, c, ha, hc, hab.trans_le hbc⟩

lemma rank_infinity : rank (infinity false) = some (double.infinity : Int) := by
  decide +kernel

lemma shape_below {pattern : Nat} (h : pattern < double.infinity) (negative : Bool) :
    ∃ m e, double.shape negative pattern = .finite negative m e := by
  unfold Format.shape Format.parts?
  rw [if_neg (not_le.mpr h)]
  dsimp only
  split_ifs <;> exact ⟨_, _, rfl⟩

lemma shape_beyond {pattern : Nat} (h : double.infinity ≤ pattern) (negative : Bool) :
    double.shape negative pattern =
      if pattern = double.infinity then .infinite negative else .nan := by
  unfold Format.shape Format.parts?
  rw [if_pos h]

/-- Exactly the numbers that count are below positive infinity. -/
theorem counts_iff : Counts x = true ↔ less x (infinity false) = true := by
  have hpositive : (0 : Int) < (double.infinity : Int) := by decide
  unfold less Counts shape
  rw [rank_infinity]
  unfold rank
  dsimp only
  generalize x.toBits.toNat = bits
  by_cases hsign : bits < doubleSign
  · rw [if_pos hsign, if_pos hsign]
    by_cases hbelow : bits < double.infinity
    · obtain ⟨m, e, hshape⟩ := shape_below hbelow false
      rw [hshape, if_pos hbelow.le]
      simp [hbelow]
    · rw [shape_beyond (not_lt.mp hbelow)]
      by_cases heq : bits = double.infinity
      · rw [if_pos heq, if_pos heq.le]
        simp [heq]
      · rw [if_neg heq, if_neg (by omega)]
  · rw [if_neg hsign, if_neg hsign]
    generalize bits - doubleSign = pattern
    by_cases hbelow : pattern < double.infinity
    · obtain ⟨m, e, hshape⟩ := shape_below hbelow true
      rw [hshape, if_pos hbelow.le]
      simp only [decide_eq_true_eq, true_iff]
      omega
    · rw [shape_beyond (not_lt.mp hbelow)]
      by_cases heq : pattern = double.infinity
      · rw [if_pos heq, if_pos heq.le]
        simp only [decide_eq_true_eq, true_iff]
        omega
      · rw [if_neg heq, if_neg (by omega)]

lemma isSome_rank_of_counts (h : Counts x = true) : (rank x).isSome := by
  obtain ⟨a, b, ha, -, -⟩ := less_iff.mp (counts_iff.mp h)
  rw [ha]
  rfl

end Order

section Best

variable {errors : List Float} {x : Float} {k : Nat}

/-- A number that counts and that no error is below. -/
def IsLeast (errors : List Float) (x : Float) : Bool :=
  Counts x && errors.all fun y => !less y x

/-- The first epoch at which the least of the errors that count is reached, counted from one; zero
if none of them counts. -/
def bestEpoch (errors : List Float) : Nat :=
  match errors.findIdx? (IsLeast errors) with
  | some k => k + 1
  | none => 0

/-- The error of the best epoch, and positive infinity if there is none. -/
def leastError (errors : List Float) : Float :=
  match bestEpoch errors with
  | 0 => infinity false
  | k + 1 => errors.getD k (infinity false)

lemma isLeast_iff : IsLeast errors x = true ↔ Counts x = true ∧ ∀ y ∈ errors, less y x = false := by
  simp [IsLeast]

/-- The best epoch is the first one whose error is the least. -/
lemma bestEpoch_eq_succ : bestEpoch errors = k + 1 ↔
    (∃ x, errors[k]? = some x ∧ IsLeast errors x = true) ∧
      ∀ j < k, ∀ y, errors[j]? = some y → IsLeast errors y = false := by
  have hfind : bestEpoch errors = k + 1 ↔ errors.findIdx? (IsLeast errors) = some k := by
    unfold bestEpoch
    cases errors.findIdx? (IsLeast errors) <;> simp
  rw [hfind, List.findIdx?_eq_some_iff_getElem]
  constructor
  · rintro ⟨hk, hleast, hfirst⟩
    refine ⟨⟨_, List.getElem?_eq_getElem hk, hleast⟩, fun j hj y hy => ?_⟩
    obtain ⟨hlt, rfl⟩ := List.getElem?_eq_some_iff.mp hy
    exact Bool.not_eq_true _ ▸ hfirst j hj
  · rintro ⟨⟨x, hx, hleast⟩, hfirst⟩
    obtain ⟨hk, rfl⟩ := List.getElem?_eq_some_iff.mp hx
    refine ⟨hk, hleast, fun j hj => ?_⟩
    rw [hfirst j hj _ (List.getElem?_eq_getElem (hj.trans hk))]
    exact Bool.false_ne_true

lemma counts_of_less (h : less x y = true) (hy : Counts y = true) : Counts x = true :=
  counts_iff.mpr (less_trans h (counts_iff.mp hy))

lemma less_self (x : Float) : less x x = false := by
  by_contra h
  have hless : less x x = true := by simpa using h
  have hnot := less_asymm hless
  rw [hless] at hnot
  cases hnot

lemma exists_least (h : ∃ x ∈ errors, Counts x = true) : ∃ x ∈ errors, IsLeast errors x = true := by
  induction errors with
  | nil => simp at h
  | cons x rest ih =>
    by_cases hrest : ∃ y ∈ rest, Counts y = true
    · obtain ⟨y, hy, hleast⟩ := ih hrest
      obtain ⟨hcounts, hall⟩ := isLeast_iff.mp hleast
      by_cases hxy : less x y = true
      · refine ⟨x, List.mem_cons_self, isLeast_iff.mpr ⟨counts_of_less hxy hcounts, ?_⟩⟩
        refine List.forall_mem_cons.mpr ⟨less_self x, fun z hz => ?_⟩
        by_contra hzx
        have hzy := less_trans (by simpa using hzx) hxy
        rw [hall z hz] at hzy
        cases hzy
      · refine ⟨y, List.mem_cons_of_mem x hy, isLeast_iff.mpr ⟨hcounts, ?_⟩⟩
        exact List.forall_mem_cons.mpr ⟨by simpa using hxy, hall⟩
    · obtain ⟨y, hy, hcounts⟩ := h
      rcases List.mem_cons.mp hy with rfl | hmem
      · refine ⟨y, List.mem_cons_self, isLeast_iff.mpr ⟨hcounts, ?_⟩⟩
        refine List.forall_mem_cons.mpr ⟨less_self y, fun z hz => ?_⟩
        by_contra hzy
        exact hrest ⟨z, hz, counts_of_less (by simpa using hzy) hcounts⟩
      · exact absurd ⟨y, hmem, hcounts⟩ hrest

/-- There is no best epoch exactly if no error counts. -/
theorem bestEpoch_eq_zero : bestEpoch errors = 0 ↔ ∀ x ∈ errors, Counts x = false := by
  have hfind : bestEpoch errors = 0 ↔ ∀ x ∈ errors, IsLeast errors x = false := by
    rw [← List.findIdx?_eq_none_iff]
    unfold bestEpoch
    cases errors.findIdx? (IsLeast errors) <;> simp
  rw [hfind]
  constructor
  · intro hnone x hx
    by_contra hcounts
    obtain ⟨y, hy, hleast⟩ := exists_least ⟨x, hx, by simpa using hcounts⟩
    rw [hnone y hy] at hleast
    cases hleast
  · intro hnone x hx
    unfold IsLeast
    rw [hnone x hx, Bool.false_and]

lemma leastError_of_best {v : Float} (h : bestEpoch errors = k + 1) (hv : errors[k]? = some v) :
    leastError errors = v := by
  unfold leastError
  rw [h]
  dsimp only
  rw [List.getD_eq_getElem?_getD, hv, Option.getD_some]

lemma leastError_of_none (h : bestEpoch errors = 0) : leastError errors = infinity false := by
  unfold leastError
  rw [h]

/-- If an epoch is the best one, then no error is below the least. -/
lemma not_less_leastError (h : bestEpoch errors ≠ 0) (hx : x ∈ errors) :
    less x (leastError errors) = false := by
  obtain ⟨k, hbest⟩ := Nat.exists_eq_succ_of_ne_zero h
  obtain ⟨⟨least, hleast, hisLeast⟩, -⟩ := bestEpoch_eq_succ.mp hbest
  rw [leastError_of_best hbest hleast]
  exact (isLeast_iff.mp hisLeast).2 x hx

/-- A new error that counts is the best one if it is below every earlier one that counts. -/
lemma bestEpoch_of_new (hx : Counts x = true)
    (hbelow : ∀ y ∈ errors, Counts y = true → less x y = true) :
    bestEpoch (errors ++ [x]) = errors.length + 1 ∧ leastError (errors ++ [x]) = x := by
  have hlast : (errors ++ [x])[errors.length]? = some x := List.getElem?_concat_length
  have hbest : bestEpoch (errors ++ [x]) = errors.length + 1 := by
    refine bestEpoch_eq_succ.mpr ⟨⟨x, hlast, isLeast_iff.mpr ⟨hx, fun y hy => ?_⟩⟩, ?_⟩
    · rcases List.mem_append.mp hy with hold | hnew
      · by_contra hless
        have hyx : less y x = true := by simpa using hless
        have hxy := hbelow y hold (counts_of_less hyx hx)
        rw [less_asymm hyx] at hxy
        cases hxy
      · rw [List.mem_singleton.mp hnew, less_self]
    · intro j hj y hy
      rw [List.getElem?_append_left hj] at hy
      by_contra hleast
      obtain ⟨hcounts, hall⟩ := isLeast_iff.mp (by simpa using hleast)
      have hxy := hbelow y (List.mem_of_getElem? hy) hcounts
      rw [hall x (List.mem_append_right _ List.mem_cons_self)] at hxy
      cases hxy
  exact ⟨hbest, leastError_of_best hbest hlast⟩

/-- One more error is the best if it is below the least one so far, and else changes nothing. -/
theorem bestEpoch_append (errors : List Float) (x : Float) :
    bestEpoch (errors ++ [x]) =
        (if less x (leastError errors) then errors.length + 1 else bestEpoch errors) ∧
      leastError (errors ++ [x]) =
        (if less x (leastError errors) then x else leastError errors) := by
  cases hbest : bestEpoch errors with
  | zero =>
    have hnone := bestEpoch_eq_zero.mp hbest
    rw [leastError_of_none hbest]
    by_cases hx : less x (infinity false) = true
    · rw [if_pos hx, if_pos hx]
      refine bestEpoch_of_new (counts_iff.mpr hx) fun y hy hcounts => ?_
      rw [hnone y hy] at hcounts
      cases hcounts
    · rw [if_neg hx, if_neg hx]
      have hall : bestEpoch (errors ++ [x]) = 0 := by
        refine bestEpoch_eq_zero.mpr (List.forall_mem_append.mpr ⟨hnone, fun y hy => ?_⟩)
        rw [List.mem_singleton.mp hy]
        by_contra hcounts
        exact hx (counts_iff.mp (by simpa using hcounts))
      exact ⟨hall, leastError_of_none hall⟩
  | succ k =>
    obtain ⟨⟨v, hv, hleast⟩, hfirst⟩ := bestEpoch_eq_succ.mp hbest
    obtain ⟨hcounts, hall⟩ := isLeast_iff.mp hleast
    rw [leastError_of_best hbest hv]
    by_cases hx : less x v = true
    · rw [if_pos hx, if_pos hx]
      exact bestEpoch_of_new (counts_of_less hx hcounts) fun y hy hy' =>
        less_of_not_less hx (isSome_rank_of_counts hy') (hall y hy)
    · rw [if_neg hx, if_neg hx]
      have hk : k < errors.length := (List.getElem?_eq_some_iff.mp hv).1
      have hv' : (errors ++ [x])[k]? = some v := by rwa [List.getElem?_append_left hk]
      have hsame : bestEpoch (errors ++ [x]) = k + 1 := by
        refine bestEpoch_eq_succ.mpr ⟨⟨v, hv', isLeast_iff.mpr ⟨hcounts, ?_⟩⟩, fun j hj y hy => ?_⟩
        · refine List.forall_mem_append.mpr ⟨hall, fun y hy => ?_⟩
          rw [List.mem_singleton.mp hy]
          simpa using hx
        · rw [List.getElem?_append_left (hj.trans hk)] at hy
          have hnot := hfirst j hj y hy
          unfold IsLeast at hnot ⊢
          rw [List.all_append, ← Bool.and_assoc, hnot, Bool.false_and]
      exact ⟨hsame, leastError_of_best hsame hv'⟩

end Best

end WideDeep.Proofs
