import Mathlib.Tactic
import WideDeep.Proofs.NumericBins

/-!
# Bins and their weights of evidence

Whatever the boundaries and labels of a column are, a bin is below the number of its bins. So a value
with a bin has the weight of that bin, and only a value without one has the last weight.
-/

namespace WideDeep.Proofs
open Binary

section Bins

variable (c : ColumnStats) {v : Raw} {i : Nat}

/-- The category of a value stands at this place of the labels. -/
def CategoryAt (v : Raw) (j : Nat) : Prop :=
  ∃ key, v.key? = some key ∧ LastWith c.labels key j

lemma find?_iff {j : Nat} : c.categoryIndex.find? v = some j ↔ CategoryAt c v j := by
  unfold CategoryIndex.find? ColumnStats.categoryIndex
  rw [Option.bind_eq_some_iff]
  exact exists_congr fun key => and_congr_right fun _ => get?_ofLabels

lemma numerical?_lt (h : Binning.numerical? c.boundaries v = .ok (some i)) : i < c.boundaries.length := by
  obtain ⟨x, -, hx⟩ := map_eq_ok.mp h
  obtain ⟨y, -, hy⟩ := Option.bind_eq_some_iff.mp hx
  exact ofNumber?_lt hy

/-- The bin of a value: of its number or of its category, as the kind of the column asks. In a hybrid
column the bins of categories follow those of numbers and are for values without one of these. -/
def HasBin (v : Raw) (i : Nat) : Prop :=
  match c.kind with
  | .numerical => Binning.numerical? c.boundaries v = .ok (some i)
  | .categorical => CategoryAt c v i
  | .hybrid => Binning.numerical? c.boundaries v = .ok (some i) ∨
      Binning.numerical? c.boundaries v = .ok none ∧
        ∃ j, CategoryAt c v j ∧ i = c.boundaries.length + j

theorem bin?_eq_some : c.bin? v = .ok (some i) ↔ HasBin c v i := by
  unfold HasBin ColumnStats.bin? ColumnStats.binWith?
  cases c.kind with
  | numerical => exact Iff.rfl
  | categorical =>
    rw [← find?_iff]
    exact ⟨fun h => Except.ok.inj h, fun h => congrArg Except.ok h⟩
  | hybrid =>
    dsimp only
    simp only [← find?_iff]
    rw [map_eq_ok]
    constructor
    · rintro ⟨bin, hbin, hi⟩
      cases bin with
      | some k =>
        cases hi
        exact Or.inl hbin
      | none =>
        obtain ⟨j, hj, rfl⟩ := Option.map_eq_some_iff.mp hi
        exact Or.inr ⟨hbin, j, hj, rfl⟩
    · rintro (hbin | ⟨hbin, j, hj, rfl⟩)
      · exact ⟨some i, hbin, rfl⟩
      · exact ⟨none, hbin, by rw [hj]; rfl⟩

/-- A bin is below the number of bins. -/
theorem HasBin.lt (h : HasBin c v i) : i < c.numBins := by
  unfold HasBin at h
  unfold ColumnStatsOf.numBins ColumnKind.numBins
  cases hkind : c.kind with
  | numerical =>
    rw [hkind] at h
    exact numerical?_lt c h
  | categorical =>
    rw [hkind] at h
    obtain ⟨key, -, hlast⟩ := h
    exact hlast.lt_length
  | hybrid =>
    rw [hkind] at h
    rcases h with hnumber | ⟨-, j, ⟨key, -, hlast⟩, rfl⟩
    · exact (numerical?_lt c hnumber).trans_le (Nat.le_add_right _ _)
    · exact Nat.add_lt_add_left hlast.lt_length _

end Bins

section Evidence

variable (c : ColumnStats) (e : EvidenceKind) {v : Raw}

/-- Weights of evidence, if there are any, are one for each bin and one for missing values. -/
lemma length_evidence (h : c.evidence e ≠ []) : (c.evidence e).length = c.numBins + 1 := by
  have hfits : evidenceFits (c.evidence e).length c.numBins = true := by
    cases e with
    | count => exact c.countEvidence_fits
    | weighted => exact c.weightedEvidence_fits
  have hlength := List.length_pos_iff.mpr h
  unfold evidenceFits at hfits
  rw [Bool.or_eq_true, beq_iff_eq, beq_iff_eq] at hfits
  exact hfits.resolve_left (by omega)

/-- The place of the weight of a bin: the last one if there is no bin. -/
def weightPlace (bin : Option Nat) : Nat :=
  bin.getD c.numBins

/-- The weight of evidence of a value with a bin is that of the bin, and of all others the last one. -/
theorem evidenceOf_of_bin {bin : Option Nat} (hbin : c.bin? v = .ok bin) (hne : c.evidence e ≠ []) :
    ∃ w, c.evidenceOf e v = .ok w ∧ (c.evidence e)[weightPlace c bin]? = some w := by
  have hlength := length_evidence c e hne
  unfold ColumnStats.evidenceOf weightPlace
  rw [if_neg (by simpa using hne), hbin]
  refine ⟨_, rfl, ?_⟩
  cases bin with
  | none =>
    have hlast : (c.evidence e)[c.numBins]? = (c.evidence e).getLast? := by
      rw [List.getLast?_eq_getElem?, hlength]
      rfl
    rw [Option.getD_none, hlast, Binning.entry, List.getLastD_eq_getLast?,
      List.getLast?_eq_some_getLast hne]
    rfl
  | some i =>
    have hlt : i < c.numBins := ((bin?_eq_some c).mp hbin).lt
    rw [Option.getD_some, Binning.entry, if_pos (by omega), List.getD_eq_getElem?_getD,
      List.getElem?_eq_getElem (by omega)]
    rfl

end Evidence

section Values

/-- Every value that is no integer beyond the range of doubles has a bin below the number of bins or
none: in a hybrid column it is the bin of its number or, behind these, that of its category. The weight
of evidence is the entry of the bin, which is never the last one, and the last entry if there is no
bin. A categorical column reads no numbers, so it has a bin or none for every value. -/
theorem bin_in_range (c : ColumnStats) {v : Raw} (hv : c.kind = .categorical ∨ ¬BeyondDoubles v) :
    ∃ bin, c.bin? v = .ok bin ∧ (∀ i, bin = some i ↔ HasBin c v i) ∧
      (∀ i, bin = some i → i < c.numBins) ∧
      (c.kind = .hybrid → ∀ i, bin = some i →
        i < c.boundaries.length ∧ Binning.numerical? c.boundaries v = .ok (some i) ∨
          Binning.numerical? c.boundaries v = .ok none ∧
            ∃ j, CategoryAt c v j ∧ j < c.labels.length ∧ i = c.boundaries.length + j) ∧
      ∀ e, c.evidence e ≠ [] → (c.evidence e).length = c.numBins + 1 ∧
        ∃ w, c.evidenceOf e v = .ok w ∧ (c.evidence e)[weightPlace c bin]? = some w := by
  obtain ⟨bin, hbin⟩ := bin?_ok c hv
  have hsome : ∀ i, bin = some i ↔ HasBin c v i := by
    intro i
    rw [← bin?_eq_some, hbin, Except.ok.injEq]
  refine ⟨bin, hbin, hsome, fun i hi => ((hsome i).mp hi).lt, fun hkind i hi => ?_,
    fun e hne => ⟨length_evidence c e hne, evidenceOf_of_bin c e hbin hne⟩⟩
  have hhas := (hsome i).mp hi
  unfold HasBin at hhas
  rw [hkind] at hhas
  rcases hhas with hnumber | ⟨hnumber, j, hj, rfl⟩
  · exact Or.inl ⟨numerical?_lt c hnumber, hnumber⟩
  · obtain ⟨key, hkey, hlast⟩ := hj
    exact Or.inr ⟨hnumber, j, ⟨key, hkey, hlast⟩, hlast.lt_length, rfl⟩

end Values

section Sample

/-- A hybrid column whose boundaries are in no order and one of which is no number. -/
def mixedColumn : ColumnStats where
  number := 0
  name := some "size"
  kind := .hybrid
  mean := 0
  stddev := 1
  cutoff := 4
  boundaries := [5, nan, 1, infinity false]
  labels := ["small@^tiny", "large"]
  countEvidence := [0.5, 0.25, 0.125, 0, 1, 2, 3]
  weightedEvidence := []
  evidenceMean := 0
  evidenceStddev := 1
  weightedMean := 0
  weightedStddev := 1
  countEvidence_fits := rfl
  weightedEvidence_fits := rfl

/-- The number seven has a bin among the four of numbers, and a synonym of the first label the bin behind
them. What is no label has the last weight. -/
theorem bin_in_range_mixed :
    mixedColumn.numBins = 6 ∧
    (∃ i, mixedColumn.bin? (.text "7") = .ok (some i) ∧ i < mixedColumn.boundaries.length) ∧
    mixedColumn.evidenceOf .count (.text "tiny") = .ok 1 ∧
    mixedColumn.evidenceOf .count (.text "huge") = .ok 3 := by
  have hweights : mixedColumn.evidence .count ≠ [] := List.cons_ne_nil _ _
  refine ⟨rfl, ?_, ?_, ?_⟩
  · obtain ⟨bin, hbin, -, -, hhybrid, -⟩ :=
      bin_in_range mixedColumn (Or.inr (not_beyondDoubles_text "7"))
    have heval : Binning.numerical? mixedColumn.boundaries (.text "7") = .ok (some 2) := by decide +kernel
    have hseven : mixedColumn.bin? (.text "7") = .ok (some 2) := by decide +kernel
    rcases hhybrid rfl 2 (Except.ok.inj (hbin.symm.trans hseven)) with ⟨hlt, -⟩ | ⟨hnone, -⟩
    · exact ⟨2, hseven, hlt⟩
    · cases heval.symm.trans hnone
  · obtain ⟨bin, hbin, -, -, -, hevidence⟩ :=
      bin_in_range mixedColumn (Or.inr (not_beyondDoubles_text "tiny"))
    have htiny : mixedColumn.bin? (.text "tiny") = .ok (some 4) := by decide +kernel
    obtain ⟨-, w, hw, hentry⟩ := hevidence .count hweights
    cases Except.ok.inj (hbin.symm.trans htiny)
    cases hentry
    exact hw
  · obtain ⟨bin, hbin, -, -, -, hevidence⟩ :=
      bin_in_range mixedColumn (Or.inr (not_beyondDoubles_text "huge"))
    have hhuge : mixedColumn.bin? (.text "huge") = .ok none := by decide +kernel
    obtain ⟨-, w, hw, hentry⟩ := hevidence .count hweights
    cases Except.ok.inj (hbin.symm.trans hhuge)
    cases hentry
    exact hw

end Sample

end WideDeep.Proofs
