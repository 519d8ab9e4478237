import Mathlib.Tactic
import WideDeep.Normalization
import WideDeep.Proofs.Categories
import WideDeep.Proofs.FloatBits
import WideDeep.Proofs.MonotoneRounding
import WideDeep.Proofs.Results

/-!
# Every raw value is normalized, but for the largest integers

A value that is no number counts as the mean of its column, and a value without a bin as the bin of
missing values. One kind of values is left: an integer that rounds to no double is an overflow wherever
it is read as a number.
-/

namespace WideDeep.Proofs
open Binary

section Numbers

/-- The least integer that rounds to no double: halfway between the largest double and what would be
the next one. -/
def leastUnrounded : Nat :=
  2 ^ 1024 - 2 ^ 970

lemma nearest_le_infinity (f : Format) (num den : Nat) : f.nearest num den ≤ f.infinity := by
  by_cases hn : num = 0
  · subst hn
    exact Nat.zero_le _
  · rw [nearest_eq f hn]
    exact Nat.min_le_left _ _

lemma nearest_natural_mono {n m : Nat} (h : n ≤ m) : double.nearest n 1 ≤ double.nearest m 1 := by
  refine nearest_mono double (by decide) one_ne_zero one_ne_zero ?_
  rw [Nat.cast_one, div_one, div_one]
  exact_mod_cast h

lemma nearest_belowLeast : double.nearest (leastUnrounded - 1) 1 = double.infinity - 1 := by
  decide +kernel

lemma nearest_leastUnrounded : double.nearest leastUnrounded 1 = double.infinity := by
  decide +kernel

/-- The integers that have a double next to them. -/
theorem isFinite_doubleOfInt_iff (n : Int) :
    isFinite (doubleOfInt n) = true ↔ n.natAbs < leastUnrounded := by
  have hshape : shape (doubleOfInt n) = double.shape (n < 0) (double.nearest n.natAbs 1) :=
    shape_doubleOfPattern _ (nearest_le_infinity _ _ _)
  unfold isFinite
  rw [hshape]
  constructor
  · intro hfinite
    by_contra hbeyond
    have hinfinite : double.nearest n.natAbs 1 = double.infinity := by
      refine le_antisymm (nearest_le_infinity _ _ _) ?_
      rw [← nearest_leastUnrounded]
      exact nearest_natural_mono (not_lt.mp hbeyond)
    rw [hinfinite] at hfinite
    cases hfinite
  · intro hbelow
    have hlt : double.nearest n.natAbs 1 < double.infinity := by
      have hle := nearest_natural_mono (Nat.le_sub_one_of_lt hbelow)
      rw [nearest_belowLeast] at hle
      exact lt_of_le_of_lt hle (by decide)
    obtain ⟨m, e, hparts, -, -⟩ := parts_normal double (by decide) _ hlt
    rw [Format.shape, hparts]

/-- An integer that rounds to no double. -/
def BeyondDoubles (v : Raw) : Prop :=
  ∃ n, v = .int n ∧ leastUnrounded ≤ n.natAbs

/-- A value that is no number: a missing one, one that is neither number nor text, a not-a-number, and
a text that writes none of the others. -/
def NoNumber : Raw → Prop
  | .missing => True
  | .bool _ => False
  | .int _ => False
  | .real x => isNaN x = true
  | .text s => ∀ x, Decimal.read? (Text.strip s) = some x → isNaN x = true
  | .other => True

lemma number?_of_beyond {v : Raw} (h : BeyondDoubles v) : v.number? = .error .overflow := by
  obtain ⟨n, rfl, hn⟩ := h
  have hinfinite : isFinite (doubleOfInt n) ≠ true := by
    rw [ne_eq, isFinite_doubleOfInt_iff]
    exact not_lt.mpr hn
  unfold Raw.number? Raw.doubleOfInt?
  dsimp only
  rw [if_neg hinfinite]
  rfl

/-- Every other value is read as a number or as none. -/
lemma number?_of_not_beyond {v : Raw} (h : ¬BeyondDoubles v) : ∃ x, v.number? = .ok x := by
  cases v with
  | int n =>
    have hfinite : isFinite (doubleOfInt n) = true :=
      (isFinite_doubleOfInt_iff n).mpr (not_le.mp fun hn => h ⟨n, rfl, hn⟩)
    refine ⟨some (doubleOfInt n), ?_⟩
    unfold Raw.number? Raw.doubleOfInt?
    dsimp only
    rw [if_pos hfinite]
    rfl
  | missing => exact ⟨_, rfl⟩
  | bool b => exact ⟨_, rfl⟩
  | real x => exact ⟨_, rfl⟩
  | text s => exact ⟨_, rfl⟩
  | other => exact ⟨_, rfl⟩

lemma number_eq_none {x : Float} : Raw.number x = none ↔ isNaN x = true := by
  unfold Raw.number
  split <;> simp_all

/-- The values that are read as no number. -/
theorem number?_eq_none {v : Raw} : v.number? = .ok none ↔ NoNumber v := by
  cases v with
  | int n =>
    have hsome : ∀ r : Except Error Float, r.map some ≠ .ok none := by
      intro r
      cases r <;> simp [Except.map]
    simp [Raw.number?, NoNumber, hsome]
  | real x => simp [Raw.number?, NoNumber, number_eq_none]
  | text s => simp [Raw.number?, NoNumber, Option.bind_eq_none_iff, number_eq_none]
  | missing => simp [Raw.number?, NoNumber]
  | bool b => simp [Raw.number?, NoNumber]
  | other => simp [Raw.number?, NoNumber]

end Numbers

section Bins

variable (c : ColumnStats) {v : Raw}

/-- A value whose key is no synonym of any label. -/
def NoCategory (v : Raw) : Prop :=
  ∀ key, v.key? = some key → key ∉ allSynonyms c.labels

/-- A value that is no number, or a number outside of all bins. -/
def OffBoundaries (v : Raw) : Prop :=
  NoNumber v ∨ ∃ x, v.number? = .ok (some x) ∧ Binning.ofNumber? c.boundaries x = none

/-- A value that no bin of a column is for. -/
def NoBin (v : Raw) : Prop :=
  match c.kind with
  | .numerical => OffBoundaries c v
  | .categorical => NoCategory c v
  | .hybrid => OffBoundaries c v ∧ NoCategory c v

lemma find?_of_noCategory (h : NoCategory c v) : c.categoryIndex.find? v = none := by
  unfold CategoryIndex.find?
  cases hkey : v.key? with
  | none => rfl
  | some key =>
    have habsent : key ∉ (CategoryIndex.ofLabels c.labels).map Prod.fst := by
      rw [(keys_ofLabels c.labels).mem_iff, List.mem_dedup]
      exact h key hkey
    unfold ColumnStats.categoryIndex CategoryIndex.get?
    rw [Option.bind_some, List.lookup_eq_none_iff]
    intro p hp
    refine bne_iff_ne.mpr fun heq => habsent ?_
    rw [heq]
    exact List.mem_map_of_mem hp

lemma numerical?_of_off (h : OffBoundaries c v) : Binning.numerical? c.boundaries v = .ok none := by
  unfold Binning.numerical?
  rcases h with hnone | ⟨x, hx, hout⟩
  · rw [number?_eq_none.mpr hnone]
    rfl
  · rw [hx]
    exact congrArg Except.ok hout

/-- A value that no bin is for is found in none. -/
theorem bin?_of_noBin (h : NoBin c v) : c.bin? v = .ok none := by
  unfold NoBin at h
  unfold ColumnStats.bin? ColumnStats.binWith?
  cases hkind : c.kind with
  | numerical =>
    rw [hkind] at h
    exact numerical?_of_off c h
  | categorical =>
    rw [hkind] at h
    exact congrArg Except.ok (find?_of_noCategory c h)
  | hybrid =>
    rw [hkind] at h
    simp only [numerical?_of_off c h.1, find?_of_noCategory c h.2]
    rfl

/-- Only a column that is not categorical reads numbers to find a bin. -/
lemma bin?_of_beyond (hkind : c.kind ≠ .categorical) (h : BeyondDoubles v) :
    c.bin? v = .error .overflow := by
  have hnumerical : Binning.numerical? c.boundaries v = .error .overflow := by
    unfold Binning.numerical?
    rw [number?_of_beyond h]
    rfl
  unfold ColumnStats.bin? ColumnStats.binWith?
  cases hk : c.kind with
  | numerical => exact hnumerical
  | categorical => exact absurd hk hkind
  | hybrid =>
    dsimp only
    rw [hnumerical]
    rfl

lemma bin?_ok (h : c.kind = .categorical ∨ ¬BeyondDoubles v) : ∃ bin, c.bin? v = .ok bin := by
  have hnumerical : ¬BeyondDoubles v → ∃ bin, Binning.numerical? c.boundaries v = .ok bin := by
    intro hv
    obtain ⟨x, hx⟩ := number?_of_not_beyond hv
    unfold Binning.numerical?
    rw [hx]
    exact ⟨_, rfl⟩
  unfold ColumnStats.bin? ColumnStats.binWith?
  cases hk : c.kind with
  | categorical => exact ⟨_, rfl⟩
  | numerical => exact hnumerical (h.resolve_left (by simp [hk]))
  | hybrid =>
    obtain ⟨bin, hbin⟩ := hnumerical (h.resolve_left (by simp [hk]))
    dsimp only
    rw [hbin]
    exact ⟨_, rfl⟩

end Bins

section Evidence

variable (c : ColumnStats) (e : EvidenceKind) {v : Raw}

/-- To find the weight of evidence of a value, the column reads the value as a number. -/
def ScansNumbers : Prop :=
  c.evidence e ≠ [] ∧ c.kind ≠ .categorical

/-- The weight of evidence of a value, as it is or with something made of it. -/
theorem evidence_outcome {β : Type} (f : Float → β) :
    (ScansNumbers c e ∧ BeyondDoubles v → (c.evidenceOf e v).map f = .error .overflow) ∧
    (¬(ScansNumbers c e ∧ BeyondDoubles v) → ∃ y, (c.evidenceOf e v).map f = .ok y) ∧
    (NoBin c v → (c.evidenceOf e v).map f = .ok (f ((c.evidence e).getLastD 0))) := by
  unfold ColumnStats.evidenceOf
  by_cases hempty : c.evidence e = []
  · rw [if_pos (by simpa using hempty)]
    refine ⟨fun h => absurd hempty h.1.1, fun _ => ⟨_, rfl⟩, fun _ => ?_⟩
    rw [hempty]
    rfl
  · rw [if_neg (by simpa using hempty)]
    refine ⟨fun h => ?_, fun h => ?_, fun h => ?_⟩
    · rw [bin?_of_beyond c h.1.2 h.2]
      rfl
    · obtain ⟨bin, hbin⟩ : ∃ bin, c.bin? v = .ok bin := by
        refine bin?_ok c ?_
        by_contra hboth
        rw [not_or, not_not] at hboth
        exact h ⟨⟨hempty, hboth.1⟩, hboth.2⟩
      rw [hbin]
      exact ⟨_, rfl⟩
    · rw [bin?_of_noBin c h]
      rfl

end Evidence

section Values

variable (c : ColumnStats) (kind : NormKind)

/-- The kind of normalization reads values of the column as numbers. -/
def ReadsNumbers : Prop :=
  match kind.method with
  | .score => True
  | .evidence e => ScansNumbers c e
  | .evidenceScore e => ScansNumbers c e

/-- A value that the kind of normalization can make nothing of: no number if values are scored, and a
value without a bin if their bins are. -/
def Unusable (v : Raw) : Prop :=
  match kind.method with
  | .score => NoNumber v
  | .evidence _ => NoBin c v
  | .evidenceScore _ => NoBin c v

/-- What stands for the values that nothing can be made of: the score of the mean, the last weight of
evidence, or the score of that weight. -/
def fallback : Float32 :=
  match kind.method with
  | .score => narrow (c.score c.mean c.mean c.stddev)
  | .evidence e => narrow ((c.evidence e).getLastD 0)
  | .evidenceScore e =>
    narrow (c.score (widen (narrow ((c.evidence e).getLastD 0))) (c.evidenceMoments e).1
      (c.evidenceMoments e).2)

/-- Every value is normalized to a number, and one that nothing can be made of to the number that
stands for it. The only exception is an integer that rounds to no double, where the value is read as a
number: it is an overflow. -/
theorem normalize_outcome (v : Raw) :
    (ReadsNumbers c kind ∧ BeyondDoubles v → c.normalize kind v = .error .overflow) ∧
    (¬(ReadsNumbers c kind ∧ BeyondDoubles v) → ∃ y, c.normalize kind v = .ok y) ∧
    (Unusable c kind v → c.normalize kind v = .ok (fallback c kind)) := by
  unfold ReadsNumbers Unusable fallback ColumnStats.normalize
  cases kind.method with
  | score =>
    refine ⟨fun h => ?_, fun h => ?_, fun h => ?_⟩
    · dsimp only
      rw [number?_of_beyond h.2]
      rfl
    · obtain ⟨x, hx⟩ := number?_of_not_beyond fun hv => h ⟨trivial, hv⟩
      dsimp only
      rw [hx]
      exact ⟨_, rfl⟩
    · dsimp only
      rw [number?_eq_none.mpr h]
      rfl
  | evidence e => exact evidence_outcome c e narrow
  | evidenceScore e =>
    exact evidence_outcome c e fun w =>
      narrow (c.score (widen (narrow w)) (c.evidenceMoments e).1 (c.evidenceMoments e).2)

end Values

section Sample

/-- A numerical column with two bins. -/
def ageColumn : ColumnStats where
  number := 0
  name := some "age"
  kind := .numerical
  mean := 10
  stddev := 2
  cutoff := 4
  boundaries := [0, 20]
  labels := []
  countEvidence := [0.5, 0.25, 0.125]
  weightedEvidence := []
  evidenceMean := 0
  evidenceStddev := 1
  weightedMean := 0
  weightedStddev := 1
  countEvidence_fits := rfl
  weightedEvidence_fits := rfl

lemma beyondDoubles_large : BeyondDoubles (.int (10 ^ 309)) :=
  ⟨_, rfl, by decide +kernel⟩

lemma noNumber_unreadable : NoNumber (.text "n/a") := by
  have hunread : Decimal.read? (Text.strip "n/a") = none := by decide +kernel
  intro x hx
  rw [hunread] at hx
  cases hx

/-- Ten to the power of 309 has no score and no weight. What cannot be read has the score of the mean
and the last weight, and a truth value has a score. -/
theorem normalize_outcome_age :
    ageColumn.normalize .zscale (.int (10 ^ 309)) = .error .overflow ∧
    ageColumn.normalize .woe (.int (10 ^ 309)) = .error .overflow ∧
    ageColumn.normalize .zscale (.text "n/a") = .ok (narrow (ageColumn.score 10 10 2)) ∧
    ageColumn.normalize .woe (.text "n/a") = .ok (narrow 0.125) ∧
    ∃ y, ageColumn.normalize .zscale (.bool true) = .ok y := by
  refine ⟨(normalize_outcome ageColumn .zscale (.int (10 ^ 309))).1 ⟨trivial, beyondDoubles_large⟩,
    (normalize_outcome ageColumn .woe (.int (10 ^ 309))).1 ⟨⟨?_, ?_⟩, beyondDoubles_large⟩,
    (normalize_outcome ageColumn .zscale (.text "n/a")).2.2 noNumber_unreadable,
    (normalize_outcome ageColumn .woe (.text "n/a")).2.2 (Or.inl noNumber_unreadable),
    (normalize_outcome ageColumn .zscale (.bool true)).2.1 ?_⟩
  · exact List.cons_ne_nil _ _
  · decide
  · rintro ⟨-, n, hn, -⟩
    cases hn

end Sample

end WideDeep.Proofs
