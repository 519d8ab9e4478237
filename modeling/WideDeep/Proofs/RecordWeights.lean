import Mathlib.Tactic
import WideDeep.Labelling
import WideDeep.Proofs.NormalizedValues
import WideDeep.Proofs.Results

/-!
# Weights of records

What is no number weighs one, and a number weighs what it is in single precision. A column of integers
of one machine word is rounded in one step, and any other column by way of the doubles, where an
integer that rounds to no double is an error.
-/

namespace WideDeep.Proofs
open Binary

section Values

variable {v : Raw}

/-- The double that a value weighs, unless it is no number. -/
def weightNumber? : Raw → Option Float
  | .missing => none
  | .bool b => some (if b then 1 else 0)
  | .int n => some (doubleOfInt n)
  | .real x => if isNaN x then none else some x
  | .text s => WeightText.number? s
  | .other => none

lemma weight_of_beyond (h : BeyondDoubles v) : v.weight = .error .overflow := by
  obtain ⟨n, rfl, hn⟩ := h
  have hinfinite : isFinite (doubleOfInt n) ≠ true := by
    rw [ne_eq, isFinite_doubleOfInt_iff]
    exact not_lt.mpr hn
  unfold Raw.weight Raw.doubleOfInt?
  dsimp only
  rw [if_neg hinfinite]

lemma weight_of_not_beyond (h : ¬BeyondDoubles v) : v.weight = .ok ((weightNumber? v).getD 1) := by
  cases v with
  | int n =>
    have hfinite : isFinite (doubleOfInt n) = true :=
      (isFinite_doubleOfInt_iff n).mpr (not_le.mp fun hn => h ⟨n, rfl, hn⟩)
    unfold Raw.weight Raw.doubleOfInt?
    dsimp only
    rw [if_pos hfinite]
    rfl
  | real x =>
    unfold Raw.weight weightNumber?
    dsimp only
    cases isNaN x with
    | false => rfl
    | true => rfl
  | missing => rfl
  | bool b => rfl
  | text s => rfl
  | other => rfl

/-- Only an integer that rounds to no double has no weight. -/
lemma weight_ok_iff : (∃ x, v.weight = .ok x) ↔ ¬BeyondDoubles v := by
  constructor
  · rintro ⟨x, hx⟩ hbeyond
    rw [weight_of_beyond hbeyond] at hx
    cases hx
  · exact fun h => ⟨_, weight_of_not_beyond h⟩

end Values

section Columns

variable {values : List Raw} {weights : List Float32}

/-- Values that write integers of one machine word, either all signed or all unsigned. -/
def MachineWords (values : List Raw) : Prop :=
  (∀ v ∈ values, ∃ n, v.weightInteger? = some n ∧ -2 ^ 63 ≤ n ∧ n < 2 ^ 63) ∨
    ∀ v ∈ values, ∃ n, v.weightInteger? = some n ∧ 0 ≤ n ∧ n < 2 ^ 64

/-- The weight of a value in a column of machine words or in another one. -/
def Weighs (words : Prop) (v : Raw) (w : Float32) : Prop :=
  (words ∧ ∃ n, v.weightInteger? = some n ∧ w = singleOfInt n) ∨
    (¬words ∧ ∃ x, weightNumber? v = some x ∧ w = narrow x) ∨
    (weightNumber? v = none ∧ w = 1)

/-- Whether integers fit into one machine word. -/
lemma words_iff {ns : List Int} (h : values.mapM Raw.weightInteger? = some ns) :
    (ns.all (fun n => -0x8000000000000000 ≤ n && n ≤ 0xffffffffffffffff) &&
      !(ns.any (· < 0) && ns.any (0x7fffffffffffffff < ·))) = true ↔ MachineWords values := by
  unfold MachineWords
  rw [← forall_mem_iff_of_mapM h, ← forall_mem_iff_of_mapM h]
  simp only [Bool.and_eq_true, Bool.not_eq_true', Bool.and_eq_false_iff, List.all_eq_true,
    List.any_eq_false, decide_eq_true_eq]
  constructor
  -- without negative integers all are unsigned words, and without large ones all are signed words
  · rintro ⟨hfits, hnone | hnone⟩
    · refine Or.inr fun n hn => ?_
      have hrange := hfits n hn
      have hsign := hnone n hn
      omega
    · refine Or.inl fun n hn => ?_
      have hrange := hfits n hn
      have hsize := hnone n hn
      omega
  · rintro (hall | hall)
    · refine ⟨fun n hn => ?_, Or.inr fun n hn => ?_⟩ <;>
        · have hrange := hall n hn
          omega
    · refine ⟨fun n hn => ?_, Or.inl fun n hn => ?_⟩ <;>
        · have hrange := hall n hn
          omega

lemma not_beyond_of_words (h : MachineWords values) : ∀ v ∈ values, ¬BeyondDoubles v := by
  rintro v hv ⟨n, rfl, hn⟩
  have hlarge : 2 ^ 64 ≤ leastUnrounded := by decide +kernel
  rcases h with hall | hall
  · obtain ⟨m, hm, hrange⟩ := hall _ hv
    cases hm
    omega
  · obtain ⟨m, hm, hrange⟩ := hall _ hv
    cases hm
    omega

/-- The weights of machine words are rounded in one step. -/
lemma weightsOf_words (h : MachineWords values) :
    ∃ ns, values.mapM Raw.weightInteger? = some ns ∧ weightsOf values = .ok (ns.map singleOfInt) := by
  obtain ⟨ns, hns⟩ : ∃ ns, values.mapM Raw.weightInteger? = some ns := by
    refine exists_mapM_some fun v hv => ?_
    rcases h with hall | hall
    · exact (hall v hv).imp fun n hn => hn.1
    · exact (hall v hv).imp fun n hn => hn.1
  refine ⟨ns, hns, ?_⟩
  unfold weightsOf
  rw [hns]
  dsimp only
  rw [if_pos ((words_iff hns).mpr h)]

/-- All other weights pass through the doubles. -/
lemma weightsOf_mixed (h : ¬MachineWords values) :
    weightsOf values = values.mapM fun v => v.weight.map narrow := by
  unfold weightsOf
  cases hns : values.mapM Raw.weightInteger? with
  | none => rfl
  | some ns =>
    dsimp only
    rw [if_neg fun hall => h ((words_iff hns).mp hall)]

/-- A column has weights unless one of its values is an integer that rounds to no double. -/
theorem weightsOf_ok_iff : (∃ ws, weightsOf values = .ok ws) ↔ ∀ v ∈ values, ¬BeyondDoubles v := by
  by_cases hwords : MachineWords values
  · obtain ⟨ns, -, hweights⟩ := weightsOf_words hwords
    exact ⟨fun _ => not_beyond_of_words hwords, fun _ => ⟨_, hweights⟩⟩
  · rw [weightsOf_mixed hwords]
    constructor
    · rintro ⟨ws, hws⟩ v hv
      obtain ⟨w, hw⟩ := mapM_step_ok hws v hv
      exact weight_ok_iff.mp ((map_eq_ok.mp hw).imp fun _ hx => hx.1)
    · intro hall
      exact exists_mapM_ok fun v hv => map_ok_iff.mpr (weight_ok_iff.mpr (hall v hv))

/-- What the values of a column weigh. -/
theorem weighs_of_weightsOf (h : weightsOf values = .ok weights) :
    List.Forall₂ (Weighs (MachineWords values)) values weights := by
  by_cases hwords : MachineWords values
  · obtain ⟨ns, hns, hweights⟩ := weightsOf_words hwords
    cases hweights.symm.trans h
    rw [List.forall₂_map_right_iff]
    exact (mapM_eq_some.mp hns).imp fun v n hn => Or.inl ⟨hwords, n, hn, rfl⟩
  · have hnumbers := weightsOf_ok_iff.mp ⟨_, h⟩
    rw [weightsOf_mixed hwords, mapM_eq_ok] at h
    have hsteps := (List.forall₂_and_left _ _).mpr ⟨hnumbers, h⟩
    refine hsteps.imp fun v w ⟨hv, hw⟩ => Or.inr ?_
    rw [weight_of_not_beyond hv] at hw
    cases hnumber : weightNumber? v with
    | none =>
      rw [hnumber] at hw
      have hone : narrow 1 = 1 := by decide +kernel
      exact Or.inr ⟨rfl, (Except.ok.inj hw).symm.trans hone⟩
    | some x =>
      rw [hnumber] at hw
      exact Or.inl ⟨hwords, x, rfl, (Except.ok.inj hw).symm⟩

end Columns

end WideDeep.Proofs
