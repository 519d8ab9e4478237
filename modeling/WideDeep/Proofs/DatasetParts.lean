import Mathlib.Tactic
import WideDeep.Dataset
import WideDeep.Proofs.Results
import WideDeep.Proofs.RoundedOperations
import WideDeep.Proofs.RoundingErrors

/-!
# Parts of a dataset

The cuts of an even split are rounded, but they stand in order, so the parts are consecutive and
hold every record once. The batches of a dataset hold every record once as well.
-/

namespace WideDeep.Proofs
open Binary

/-- A double without sign, its fraction dropped. -/
def wholePart (p : Nat) : Nat :=
  ((truncate? (doubleOfPattern false p)).getD 0).toNat

lemma wholePart_eq {p : Nat} (hp : p < double.infinity) : wholePart p = ⌊valueOf p⌋₊ := by
  obtain ⟨m, e, hparts, -, -⟩ := parts_normal double (by decide) p hp
  obtain ⟨hd, hvalue⟩ := dyadic_value m e
  have hdq : ((dyadic m e).2 : ℚ) ≠ 0 := by exact_mod_cast hd
  have hratio : valueOf p = (dyadic m e).1 / (dyadic m e).2 := by
    rw [valueOf_eq hparts, hvalue, mul_div_cancel_right₀ _ hdq]
  unfold wholePart truncate?
  rw [shape_doubleOfPattern false hp.le]
  unfold Format.shape
  rw [hparts, hratio, Nat.floor_div_natCast, Nat.floor_natCast]
  rfl

section Cuts

variable {size parts i j : Nat}

lemma doubleOfInt_natCast (n : Nat) : doubleOfInt n = doubleOfPattern false (nearestTo n) := by
  have hsign : decide ((n : Int) < 0) = false := by simp
  unfold doubleOfInt nearestDouble nearestTo
  rw [hsign]
  rfl

/-- The step between the cuts of an even split. -/
def cutStep (size parts : Nat) : Nat :=
  nearestTo (valueOf (nearestTo size) / valueOf (nearestTo parts))

/-- The place of a cut before its fraction is dropped. -/
def cutPlace (size parts i : Nat) : Nat :=
  nearestTo (valueOf (nearestTo i) * valueOf (cutStep size parts))

lemma nearestTo_natCast_le {n k : Nat} (hk : k ≤ 156) (h : n < 2 ^ k) :
    nearestTo n < double.infinity ∧ valueOf (nearestTo n) ≤ 2 ^ k :=
  nearestTo_le_power hk (Nat.cast_nonneg n) (by exact_mod_cast h.le)

/-- The step of a split of that many records is finite. -/
lemma cutStep_le (hsize : size < 2 ^ 64) (hpos : 0 < parts) (hparts : parts < 2 ^ 60) :
    doubleOfInt size / doubleOfInt parts = doubleOfPattern false (cutStep size parts) ∧
      cutStep size parts < double.infinity ∧ valueOf (cutStep size parts) ≤ 2 ^ 64 := by
  obtain ⟨hsizeFinite, hsizeValue⟩ := nearestTo_natCast_le (by norm_num) hsize
  obtain ⟨hpartsFinite, -⟩ := nearestTo_natCast_le (by norm_num) hparts
  have hone : 1 ≤ valueOf (nearestTo parts) :=
    one_le_nearestTo (by exact_mod_cast hpos) hpartsFinite
  have hquotient : valueOf (nearestTo size) / valueOf (nearestTo parts) ≤ 2 ^ 64 :=
    (div_le_self (valueOf_nonneg _) hone).trans hsizeValue
  rw [doubleOfInt_natCast, doubleOfInt_natCast,
    div_double hsizeFinite hpartsFinite (zero_lt_one.trans_le hone)]
  exact ⟨rfl, nearestTo_le_power (by norm_num)
    (div_nonneg (valueOf_nonneg _) (valueOf_nonneg _)) hquotient⟩

lemma cutPlace_lt (hsize : size < 2 ^ 64) (hparts : parts < 2 ^ 60) (hi : i < parts) :
    cutPlace size parts i < double.infinity := by
  obtain ⟨-, -, hstep⟩ := cutStep_le hsize (by omega) hparts
  obtain ⟨-, hnumber⟩ := nearestTo_natCast_le (n := i) (k := 60) (by norm_num) (hi.trans hparts)
  refine (nearestTo_le_power (k := 124) (by norm_num)
    (mul_nonneg (valueOf_nonneg _) (valueOf_nonneg _)) ?_).1
  calc valueOf (nearestTo i) * valueOf (cutStep size parts) ≤ 2 ^ 60 * 2 ^ 64 :=
        mul_le_mul hnumber hstep (valueOf_nonneg _) (by positivity)
    _ = 2 ^ 124 := by norm_num

lemma evenCut_eq (hsize : size < 2 ^ 64) (hparts : parts < 2 ^ 60) (hi : i < parts) :
    Dataset.evenCut size parts i = wholePart (cutPlace size parts i) := by
  obtain ⟨hstep, hfinite, -⟩ := cutStep_le hsize (by omega) hparts
  obtain ⟨hnumber, -⟩ := nearestTo_natCast_le (n := i) (k := 60) (by norm_num) (hi.trans hparts)
  unfold Dataset.evenCut
  rw [if_neg hi.ne]
  dsimp only
  rw [hstep, doubleOfInt_natCast, mul_double hnumber hfinite]
  rfl

/-- The cuts of an even split stand in order. -/
theorem evenCut_mono (hsize : size < 2 ^ 64) (hparts : parts < 2 ^ 60) (hij : i ≤ j)
    (hj : j < parts) : Dataset.evenCut size parts i ≤ Dataset.evenCut size parts j := by
  have hlater := cutPlace_lt hsize hparts hj
  have hplaces : cutPlace size parts i ≤ cutPlace size parts j := by
    have hfinite := (nearestTo_natCast_le (n := j) (k := 60) (by norm_num) (hj.trans hparts)).1
    have hnumbers : nearestTo i ≤ nearestTo j :=
      nearestTo_mono (Nat.cast_nonneg i) (by exact_mod_cast hij)
    exact nearestTo_mono (mul_nonneg (valueOf_nonneg _) (valueOf_nonneg _))
      (mul_le_mul_of_nonneg_right (valueOf_mono hfinite hnumbers) (valueOf_nonneg _))
  rw [evenCut_eq hsize hparts (by omega), evenCut_eq hsize hparts hj,
    wholePart_eq (hplaces.trans_lt hlater), wholePart_eq hlater]
  exact Nat.floor_mono (valueOf_mono hlater hplaces)

lemma evenCut_zero (hsize : size < 2 ^ 64) (hparts : parts < 2 ^ 60) (hpos : 0 < parts) :
    Dataset.evenCut size parts 0 = 0 := by
  have hzero : nearestTo 0 = 0 := by decide +kernel
  have hvalue : valueOf 0 = 0 := by
    rw [valueOf_eq (m := 0) (e := -1074) (by decide)]
    norm_num
  have hplace : cutPlace size parts 0 = 0 := by
    unfold cutPlace
    rw [Nat.cast_zero, hzero, hvalue, zero_mul, hzero]
  rw [evenCut_eq hsize hparts hpos, hplace, wholePart_eq (by decide), hvalue, Nat.floor_zero]

lemma evenCut_last (size parts : Nat) : Dataset.evenCut size parts parts = size := by
  unfold Dataset.evenCut
  rw [if_pos rfl]

end Cuts

section Slices

variable {α : Type}

/-- Consecutive slices of a list make up its beginning. -/
lemma flatMap_slices (xs : List α) {cut : Nat → Nat} {n : Nat} (hzero : cut 0 = 0)
    (hmono : ∀ i < n, cut i ≤ cut (i + 1)) :
    (List.range n).flatMap (fun i => (xs.take (cut (i + 1))).drop (cut i)) = xs.take (cut n) := by
  induction n with
  | zero => rw [hzero]; rfl
  | succ n ih =>
    have hbefore : xs.take (cut n) = (xs.take (cut (n + 1))).take (cut n) := by
      rw [List.take_take, min_eq_left (hmono n n.lt_succ_self)]
    rw [List.range_succ, List.flatMap_append, ih fun i hi => hmono i (by omega), List.flatMap_cons,
      List.flatMap_nil, List.append_nil, hbefore, List.take_append_drop]

/-- A split into a number of parts that can be listed. -/
lemma split_eq (d : Dataset α) {k : Int} (hk : -1 ≤ k) (hmost : k < Dataset.mostCuts) :
    d.split k = .ok (d.splitWith (Dataset.evenCut d.size k.toNat) k.toNat) := by
  have hinside : (decide (k < -1) || decide (Dataset.mostCuts ≤ k)) = false := by
    rw [decide_eq_false (not_lt.mpr hk), decide_eq_false (not_le.mpr hmost), Bool.or_false]
  unfold Dataset.split
  rw [hinside]
  rfl

lemma length_splitWith (d : Dataset α) (cut : Nat → Nat) (parts : Nat) :
    (d.splitWith cut parts).length = parts := by
  unfold Dataset.splitWith
  rw [List.length_map, List.length_range]

/-- An even split has as many parts as it should have, and they hold the records one after the
other. -/
theorem split_eq_ok {d : Dataset α} {k : Int} (hk : 1 ≤ k) (hmost : k < Dataset.mostCuts)
    (hsize : d.size < 2 ^ 64) :
    ∃ parts, d.split k = .ok parts ∧ parts.length = k.toNat ∧
      parts.flatMap (·.samples) = d.samples ∧ ∀ p ∈ parts, ∃ samples, p = d.withSamples samples := by
  have hcount : k.toNat < 2 ^ 60 := by
    unfold Dataset.mostCuts at hmost
    omega
  obtain ⟨n, hn⟩ : ∃ n, k.toNat = n + 1 := Nat.exists_eq_succ_of_ne_zero (by omega)
  refine ⟨_, split_eq d (by omega) hmost, length_splitWith d _ _, ?_, ?_⟩
  · -- The last part reaches to the end, whatever the cut before it is.
    unfold Dataset.splitWith
    rw [List.flatMap_map]
    change (List.range k.toNat).flatMap (fun i =>
      (d.samples.take (Dataset.evenCut d.size k.toNat (i + 1))).drop
        (Dataset.evenCut d.size k.toNat i)) = d.samples
    have hlast : d.samples.take (Dataset.evenCut d.size k.toNat k.toNat) = d.samples := by
      rw [evenCut_last]
      exact List.take_length
    rw [hn, List.range_succ, List.flatMap_append, ← hn,
      flatMap_slices d.samples (evenCut_zero hsize hcount (by omega))
        fun i hi => evenCut_mono hsize hcount i.le_succ (by omega),
      List.flatMap_cons, List.flatMap_nil, List.append_nil, ← hn, hlast, List.take_append_drop]
  · intro p hp
    obtain ⟨i, -, rfl⟩ := List.mem_map.mp hp
    exact ⟨_, rfl⟩

/-- Batches of a positive size make up the records. -/
theorem chunks_flatten {size : Nat} (hsize : 0 < size) {fuel : Nat} {xs : List α}
    (hfuel : xs.length ≤ fuel) : (Dataset.chunks size fuel xs).flatten = xs := by
  induction fuel generalizing xs with
  | zero => rw [List.eq_nil_of_length_eq_zero (Nat.le_zero.mp hfuel)]; rfl
  | succ fuel ih =>
    cases xs with
    | nil => rfl
    | cons x rest =>
      have hrest : ((x :: rest).drop size).length ≤ fuel := by
        rw [List.length_drop, List.length_cons] at *
        omega
      rw [Dataset.chunks, List.flatten_cons, ih hrest, List.take_append_drop]
      exact List.cons_ne_nil x rest

lemma batches_flatten {d : Dataset α} {size : Nat} (hsize : 0 < size) :
    (d.batches size).flatten = d.samples :=
  chunks_flatten hsize le_rfl

end Slices

end WideDeep.Proofs
