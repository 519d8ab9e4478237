import Mathlib.Tactic
import WideDeep.Proofs.NormalizedValues
import WideDeep.Proofs.NumberLine

/-!
# Bins of numbers

The search for a bin halves the places between which the bin may be. Whatever the boundaries are, it
ends at one of their places; if they do not decrease, it finds the last boundary that a number reaches.
-/

namespace WideDeep.Proofs
open Binary

section Search

variable {boundaries : List Float} {x : Float} {lo hi : Nat}

/-- The search stays between its ends, in whatever order the boundaries are. -/
lemma search_bounds (boundaries : List Float) (x : Float) (h : lo ≤ hi) :
    lo ≤ Binning.search boundaries x lo hi ∧ Binning.search boundaries x lo hi ≤ hi := by
  fun_induction Binning.search boundaries x lo hi with
  | case1 lo hi hlt mid hless ih =>
    have hends := ih (by omega)
    exact ⟨hends.1, by omega⟩
  | case2 lo hi hlt mid hless ih =>
    have hends := ih (by omega)
    exact ⟨by omega, hends.2⟩
  | case3 lo hi hlt => exact ⟨le_rfl, h⟩

/-- A bin is the place of a boundary. -/
theorem ofNumber?_lt {i : Nat} (h : Binning.ofNumber? boundaries x = some i) : i < boundaries.length := by
  have hends := search_bounds boundaries x (Nat.zero_le boundaries.length)
  unfold Binning.ofNumber? at h
  split at h
  · split at h
    · cases h
    · split at h
      · cases h
      · rename_i n hsearch
        rw [hsearch] at hends
        cases h
        omega
  · cases h

end Search

section Sorted

variable {boundaries : List Float} {x : Float} {lo hi : Nat}

/-- Boundaries that are numbers and do not decrease. -/
structure Ascending (boundaries : List Float) : Prop where
  numbers : ∀ b ∈ boundaries, isNaN b = false
  sorted : boundaries.Pairwise AtMost

/-- Whether boundaries do not decrease can be seen from comparisons. -/
lemma ascending_of_not_less (hnumbers : ∀ b ∈ boundaries, isNaN b = false)
    (hsorted : boundaries.Pairwise fun a b => less b a = false) : Ascending boundaries := by
  refine ⟨hnumbers, hsorted.imp_of_mem fun {a b} ha hb h => ?_⟩
  rw [atMost_iff (hnumbers a ha) (hnumbers b hb), ← less_iff_below, h]
  exact Bool.false_ne_true

/-- A place between the boundaries that a number reaches and those above it. -/
structure Splits (boundaries : List Float) (x : Float) (lo hi : Nat) : Prop where
  reached : ∀ j b, j < lo → boundaries[j]? = some b → less x b = false
  above : ∀ j b, hi ≤ j → boundaries[j]? = some b → less x b = true

lemma Ascending.atMost (h : Ascending boundaries) {i j : Nat} {a b : Float} (hij : i ≤ j)
    (ha : boundaries[i]? = some a) (hb : boundaries[j]? = some b) : AtMost a b := by
  obtain ⟨hi, rfl⟩ := List.getElem?_eq_some_iff.mp ha
  obtain ⟨hj, rfl⟩ := List.getElem?_eq_some_iff.mp hb
  rcases hij.lt_or_eq with hlt | rfl
  · exact List.pairwise_iff_getElem.mp h.sorted i j hi hj hlt
  · obtain ⟨u, hu⟩ := exists_place (h.numbers _ (List.getElem_mem hi))
    exact ⟨u, u, hu, hu, le_rfl⟩

/-- One comparison keeps the boundaries split, at the lower or at the upper half of the places. -/
lemma Splits.halve (h : Splits boundaries x lo hi) (hsorted : Ascending boundaries) {mid : Nat}
    (hmid : mid < boundaries.length) :
    if less x (boundaries.getD mid nan) then Splits boundaries x lo mid
    else Splits boundaries x (mid + 1) hi := by
  have hget : boundaries[mid]? = some (boundaries.getD mid nan) := by
    rw [List.getD_eq_getElem?_getD, List.getElem?_eq_getElem hmid, Option.getD_some]
  generalize boundaries.getD mid nan = pivot at hget ⊢
  split
  · rename_i hless
    refine ⟨h.reached, fun j b hj hb => ?_⟩
    exact less_iff_below.mpr ((less_iff_below.mp hless).of_atMost (hsorted.atMost hj hget hb))
  · rename_i hless
    refine ⟨fun j b hj hb => ?_, h.above⟩
    by_contra hbelow
    rw [Bool.not_eq_false] at hbelow
    have hle : AtMost b pivot := hsorted.atMost (by omega) hb hget
    exact hless (less_iff_below.mpr ((less_iff_below.mp hbelow).of_atMost hle))

/-- The search ends at the place that splits the boundaries. -/
theorem search_splits (hsorted : Ascending boundaries) (hhi : hi ≤ boundaries.length)
    (h : Splits boundaries x lo hi) (hle : lo ≤ hi) :
    Splits boundaries x (Binning.search boundaries x lo hi) (Binning.search boundaries x lo hi) := by
  fun_induction Binning.search boundaries x lo hi with
  | case1 lo hi hlt mid hless ih =>
    have hmid : mid < boundaries.length := by omega
    have hhalf := h.halve hsorted hmid
    rw [if_pos hless] at hhalf
    exact ih (by omega) hhalf (by omega)
  | case2 lo hi hlt mid hless ih =>
    have hmid : mid < boundaries.length := by omega
    have hhalf := h.halve hsorted hmid
    rw [if_neg hless] at hhalf
    exact ih hhi hhalf (by omega)
  | case3 lo hi hlt =>
    obtain rfl : lo = hi := by omega
    exact h

end Sorted

section Bins

variable {boundaries : List Float} {x y : Float} {i j : Nat}

/-- The last of the boundaries that a number reaches stands at this place. -/
structure LastReached (boundaries : List Float) (x : Float) (i : Nat) : Prop where
  reached : ∃ b, boundaries[i]? = some b ∧ AtMost b x
  above : ∀ j b, i < j → boundaries[j]? = some b → Below x b

lemma LastReached.next (h : LastReached boundaries x i) :
    i + 1 = boundaries.length ∨ ∃ b, boundaries[i + 1]? = some b ∧ Below x b := by
  obtain ⟨b, hb, -⟩ := h.reached
  have hi : i < boundaries.length := (List.getElem?_eq_some_iff.mp hb).1
  by_cases hlast : i + 1 = boundaries.length
  · exact Or.inl hlast
  · have hget := List.getElem?_eq_getElem (show i + 1 < boundaries.length by omega)
    exact Or.inr ⟨_, hget, h.above (i + 1) _ (Nat.lt_succ_self i) hget⟩

/-- A greater number reaches at least as many boundaries. -/
lemma LastReached.mono (hx : LastReached boundaries x i) (hy : LastReached boundaries y j)
    (h : AtMost x y) : i ≤ j := by
  by_contra hlt
  obtain ⟨b, hb, hreached⟩ := hx.reached
  have hbelow := hy.above i b (not_le.mp hlt) hb
  exact (hreached.trans h).not_below hbelow

/-- A number that reaches the last boundary is in the last bin. -/
lemma LastReached.eq_last (h : LastReached boundaries x i) (hne : boundaries ≠ [])
    (hx : AtMost (boundaries.getLast hne) x) : i + 1 = boundaries.length := by
  rcases h.next with hlast | ⟨b, hb, -⟩
  · exact hlast
  · obtain ⟨hi, -⟩ := List.getElem?_eq_some_iff.mp hb
    have hget : boundaries[boundaries.length - 1]? = some (boundaries.getLast hne) := by
      rw [← List.getLast?_eq_getElem?, List.getLast?_eq_some_getLast hne]
    have hbelow := h.above (boundaries.length - 1) _ (by omega) hget
    exact absurd hbelow hx.not_below

lemma ofNumber?_of_ne_nil (hne : boundaries ≠ []) :
    Binning.ofNumber? boundaries x =
      if less x (boundaries.head hne) || less (boundaries.getLast hne) x then none
      else
        match Binning.search boundaries x 0 boundaries.length with
        | 0 => none
        | n + 1 => some n := by
  cases boundaries with
  | nil => exact absurd rfl hne
  | cons b rest => rfl

/-- A number within the boundaries is in the bin of the last boundary that it reaches, and one below
all of them or above all of them is in none. -/
theorem ofNumber?_cases (hsorted : Ascending boundaries) (hne : boundaries ≠ []) (hx : isNaN x = false) :
    ((Below x (boundaries.head hne) ∨ Below (boundaries.getLast hne) x) ∧
        Binning.ofNumber? boundaries x = none) ∨
      ¬(Below x (boundaries.head hne) ∨ Below (boundaries.getLast hne) x) ∧
        ∃ i, Binning.ofNumber? boundaries x = some i ∧ LastReached boundaries x i := by
  have hout : (less x (boundaries.head hne) || less (boundaries.getLast hne) x) = true ↔
      Below x (boundaries.head hne) ∨ Below (boundaries.getLast hne) x := by
    rw [Bool.or_eq_true, less_iff_below, less_iff_below]
  rw [ofNumber?_of_ne_nil hne]
  by_cases houtside : Below x (boundaries.head hne) ∨ Below (boundaries.getLast hne) x
  · exact Or.inl ⟨houtside, if_pos (hout.mpr houtside)⟩
  refine Or.inr ⟨houtside, ?_⟩
  rw [if_neg (mt hout.mp houtside)]
  have hends := search_bounds boundaries x (Nat.zero_le boundaries.length)
  have hnone : Splits boundaries x 0 boundaries.length := by
    refine ⟨fun j b hj => absurd hj (Nat.not_lt_zero j), fun j b hj hb => ?_⟩
    exact absurd (List.getElem?_eq_some_iff.mp hb).1 (not_lt.mpr hj)
  have hsplits := search_splits hsorted le_rfl hnone (Nat.zero_le _)
  have hhead : boundaries[0]? = some (boundaries.head hne) := by
    rw [← List.head?_eq_getElem?, List.head?_eq_some_head hne]
  cases hsearch : Binning.search boundaries x 0 boundaries.length with
  | zero =>
    -- The first boundary is reached, so the search does not end at the first place.
    rw [hsearch] at hsplits
    have hbelow := hsplits.above 0 _ le_rfl hhead
    exact absurd (Or.inl (less_iff_below.mp hbelow)) houtside
  | succ n =>
    rw [hsearch] at hsplits hends
    have hget := List.getElem?_eq_getElem (show n < boundaries.length by omega)
    have hnumber := hsorted.numbers _ (List.getElem_mem (show n < boundaries.length by omega))
    have hreached := hsplits.reached n _ (Nat.lt_succ_self n) hget
    refine ⟨n, rfl, ⟨_, hget, (atMost_iff hnumber hx).mpr fun hbelow => ?_⟩, fun j b hj hb => ?_⟩
    · rw [less_iff_below.mpr hbelow] at hreached
      cases hreached
    · exact less_iff_below.mp (hsplits.above j b hj hb)

end Bins

section Values

variable {boundaries : List Float} {v : Raw}

/-- What is read from a value as its number is one. -/
lemma isNaN_of_number? {x : Float} (h : v.number? = .ok (some x)) : isNaN x = false := by
  have hread : ∀ {y : Float}, Raw.number y = some x → isNaN x = false := by
    intro y hy
    unfold Raw.number at hy
    split at hy
    · cases hy
    · rename_i hnumber
      cases hy
      exact Bool.not_eq_true _ ▸ hnumber
  cases v with
  | missing => cases h
  | other => cases h
  | bool b =>
    cases h
    cases b <;> decide +kernel
  | int n =>
    obtain ⟨y, hy, hsome⟩ := map_eq_ok.mp h
    cases hsome
    unfold Raw.doubleOfInt? at hy
    dsimp only at hy
    split at hy
    · rename_i hfinite
      cases hy
      exact isNaN_of_isFinite hfinite
    · cases hy
  | real y => exact hread (Except.ok.inj h)
  | text s =>
    obtain ⟨y, -, hy⟩ := Option.bind_eq_some_iff.mp (Except.ok.inj h)
    exact hread hy

/-- The bin of a value among boundaries that are numbers and do not decrease. There is none exactly if
the value is no number, or if its number is below the first boundary or above the last one. Otherwise it
is the bin of the last boundary that the number reaches: the number is below the next boundary, if there
is one, the last boundary itself is in the last bin, and a greater number has no lesser bin. -/
theorem numericBin_of_ascending (hne : boundaries ≠ []) (hsorted : Ascending boundaries)
    (hv : ¬BeyondDoubles v) :
    ∃ bin, Binning.numerical? boundaries v = .ok bin ∧
      (bin = none ↔ NoNumber v ∨ ∃ x, v.number? = .ok (some x) ∧
        (Below x (boundaries.head hne) ∨ Below (boundaries.getLast hne) x)) ∧
      ∀ i, bin = some i → ∃ x, v.number? = .ok (some x) ∧ LastReached boundaries x i ∧
        (i + 1 = boundaries.length ∨ ∃ b, boundaries[i + 1]? = some b ∧ Below x b) ∧
        (placeOf x = placeOf (boundaries.getLast hne) → i + 1 = boundaries.length) ∧
        ∀ w y j, w.number? = .ok (some y) → Binning.numerical? boundaries w = .ok (some j) →
          AtMost x y → i ≤ j := by
  have hbin : ∀ {w : Raw} {y : Float}, w.number? = .ok (some y) →
      Binning.numerical? boundaries w = .ok (Binning.ofNumber? boundaries y) := by
    intro w y hy
    unfold Binning.numerical?
    rw [hy]
    rfl
  obtain ⟨found, hfound⟩ := number?_of_not_beyond hv
  cases found with
  | none =>
    refine ⟨none, ?_, by simp [number?_eq_none.mp hfound], fun i hi => nomatch hi⟩
    unfold Binning.numerical?
    rw [hfound]
    rfl
  | some x =>
    have hx := isNaN_of_number? hfound
    have hnumber : ¬NoNumber v := by
      rw [← number?_eq_none, hfound]
      simp
    refine ⟨_, hbin hfound, ?_⟩
    rcases ofNumber?_cases hsorted hne hx with ⟨hout, hnone⟩ | ⟨hin, i, hsome, hlast⟩
    · rw [hnone]
      exact ⟨⟨fun _ => Or.inr ⟨x, hfound, hout⟩, fun _ => rfl⟩, fun i hi => nomatch hi⟩
    · rw [hsome]
      refine ⟨⟨fun h => (nomatch h), ?_⟩, ?_⟩
      · rintro (h | ⟨y, hy, hout⟩)
        · exact absurd h hnumber
        · cases hfound.symm.trans hy
          exact absurd hout hin
      · intro k hk
        cases hk
        refine ⟨x, hfound, hlast, hlast.next, fun hsame => hlast.eq_last hne ?_, ?_⟩
        · obtain ⟨u, hu⟩ := exists_place hx
          exact ⟨u, u, hsame ▸ hu, hu, le_rfl⟩
        · intro w y j hy hj hxy
          rw [hbin hy] at hj
          rcases ofNumber?_cases hsorted hne (isNaN_of_number? hy) with ⟨-, hnone⟩ | ⟨-, k, hk, hlast'⟩
          · rw [hnone] at hj
            cases hj
          · rw [hk] at hj
            cases hj
            exact hlast.mono hlast' hxy

end Values

section Sample

/-- Boundaries with a double one, the last of which is infinite. -/
def stepBoundaries : List Float :=
  [0, 5, 5, infinity false]

lemma not_beyondDoubles_text (s : String) : ¬BeyondDoubles (.text s) := by
  rintro ⟨n, hn, -⟩
  cases hn

/-- Five is in the bin of the second of the two boundaries of five, and minus one is in none. -/
theorem numericBin_steps : Ascending stepBoundaries ∧
    (∃ x, (Raw.text " 5 ").number? = .ok (some x) ∧ LastReached stepBoundaries x 2 ∧
      ∃ b, stepBoundaries[3]? = some b ∧ Below x b) ∧
    ∃ x, (Raw.text "-1").number? = .ok (some x) ∧ (Below x 0 ∨ Below (infinity false) x) := by
  have hascending : Ascending stepBoundaries :=
    ascending_of_not_less (by decide +kernel) (by decide +kernel)
  have hne : stepBoundaries ≠ [] := List.cons_ne_nil _ _
  refine ⟨hascending, ?_, ?_⟩
  · obtain ⟨bin, hbin, -, hsome⟩ :=
      numericBin_of_ascending hne hascending (not_beyondDoubles_text " 5 ")
    have heval : Binning.numerical? stepBoundaries (.text " 5 ") = .ok (some 2) := by decide +kernel
    obtain ⟨x, hx, hlast, hnext, -⟩ := hsome 2 (Except.ok.inj (hbin.symm.trans heval))
    exact ⟨x, hx, hlast, hnext.resolve_left (by decide)⟩
  · obtain ⟨bin, hbin, hnone, -⟩ :=
      numericBin_of_ascending hne hascending (not_beyondDoubles_text "-1")
    have heval : Binning.numerical? stepBoundaries (.text "-1") = .ok none := by decide +kernel
    have hread : Raw.number? (.text "-1") ≠ .ok none := by decide +kernel
    rcases hnone.mp (Except.ok.inj (hbin.symm.trans heval)) with hnumber | hout
    · exact absurd (number?_eq_none.mpr hnumber) hread
    · exact hout

end Sample

end WideDeep.Proofs
