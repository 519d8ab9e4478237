import Mathlib
import WideDeep.Decimal.Shortest
import WideDeep.Text.Blank

/-!
# Texts of numbers

An integer is written with digits and a sign. The text of a double has a point or a letter besides, so
it is not the text of an integer, not even where the double equals one. Neither text has blanks.
-/

namespace WideDeep.Proofs
open Binary

section Integers

lemma integerChar_of_mem {n : Int} {c : Char} (h : c ∈ (toString n).toList) :
    c.isDigit = true ∨ c = '-' := by
  have hdigit : ∀ {m : Nat}, c ∈ m.repr.toList → c.isDigit = true := by
    intro m hm
    rw [Nat.toList_repr] at hm
    exact Nat.isDigit_of_mem_toDigits (by decide) (by decide) hm
  rw [Int.toString_eq_repr, Int.repr_eq_if] at h
  split_ifs at h
  · exact Or.inl (hdigit h)
  · rw [String.toList_append] at h
    rcases List.mem_append.mp h with hsign | hrest
    · exact Or.inr (List.mem_singleton.mp hsign)
    · exact Or.inl (hdigit hrest)

lemma toString_int_inj {m n : Int} : toString m = toString n ↔ m = n := by
  rw [Int.toString_eq_repr, Int.toString_eq_repr, Int.repr_inj]

end Integers

section Doubles

/-- The characters in the texts of doubles that are no digits. -/
def numberMarks : List Char :=
  ['-', '+', '.', 'e', 'n', 'a', 'i', 'f']

/-- A character that the text of a double may have. -/
def NumberChar (c : Char) : Prop :=
  c.isDigit = true ∨ c ∈ numberMarks

/-- Characters of which every text of a double has one and no text of an integer has any. -/
def doubleMarks : List Char :=
  ['.', 'e', 'n']

variable {ds : List Char} {place : Int} {c : Char}

lemma numberChar_replicate {n : Nat} (h : c ∈ List.replicate n '0') : NumberChar c := by
  rw [List.eq_of_mem_replicate h]
  exact Or.inl (by decide)

lemma numberChar_digits {n : Nat} (h : c ∈ Decimal.digits n) : NumberChar c :=
  Or.inl (Nat.isDigit_of_mem_toDigits (by decide) (by decide) h)

lemma numberChar_positional (hds : ∀ d ∈ ds, NumberChar d) (h : c ∈ Decimal.positional ds place) :
    NumberChar c := by
  unfold Decimal.positional at h
  dsimp only at h
  split_ifs at h
  · simp only [List.mem_append, List.mem_cons, List.not_mem_nil, or_false] at h
    rcases h with ((rfl | rfl) | hzero) | hrest
    · exact Or.inl (by decide)
    · exact Or.inr (by decide)
    · exact numberChar_replicate hzero
    · exact hds c hrest
  · simp only [List.mem_append, List.mem_cons, List.not_mem_nil, or_false] at h
    rcases h with (hrest | hzero) | rfl | rfl
    · exact hds c hrest
    · exact numberChar_replicate hzero
    · exact Or.inr (by decide)
    · exact Or.inl (by decide)
  · simp only [List.mem_append, List.mem_cons, List.not_mem_nil, or_false] at h
    rcases h with (hrest | rfl) | hrest
    · exact hds c (List.mem_of_mem_take hrest)
    · exact Or.inr (by decide)
    · exact hds c (List.mem_of_mem_drop hrest)

lemma point_mem_positional : '.' ∈ Decimal.positional ds place := by
  unfold Decimal.positional
  dsimp only
  split_ifs <;> simp

lemma numberChar_scientific (hds : ∀ d ∈ ds, NumberChar d) (h : c ∈ Decimal.scientific ds place) :
    NumberChar c := by
  unfold Decimal.scientific at h
  simp only [List.mem_append, List.mem_cons, List.not_mem_nil, or_false] at h
  rcases h with ((hfirst | hfraction) | rfl | hsign) | hexponent
  · exact hds c (List.mem_of_mem_take hfirst)
  · split_ifs at hfraction
    · cases hfraction
    · rcases List.mem_cons.mp hfraction with rfl | hrest
      · exact Or.inr (by decide)
      · exact hds c (List.mem_of_mem_drop hrest)
  · exact Or.inr (by decide)
  · split_ifs at hsign <;> subst hsign <;> exact Or.inr (by decide)
  · split_ifs at hexponent
    · rcases List.mem_cons.mp hexponent with rfl | hrest
      · exact Or.inl (by decide)
      · exact numberChar_digits hrest
    · exact numberChar_digits hexponent

lemma exponent_mem_scientific : 'e' ∈ Decimal.scientific ds place := by
  unfold Decimal.scientific
  simp

/-- The words for doubles that are not finite. -/
def numberWords : List String :=
  ["nan", "inf", "-inf"]

/-- A double is written as a word, or after a sign, if it has one, as zero, in positions or with an
exponent. -/
lemma render_cases (x : Float) : Decimal.render x ∈ numberWords ∨ ∃ (negative : Bool) (body : List Char),
    (Decimal.render x).toList = (if negative then '-' :: body else body) ∧
    (body = ['0', '.', '0'] ∨ ∃ n place, body = Decimal.positional (Decimal.digits n) place ∨
      body = Decimal.scientific (Decimal.digits n) place) := by
  unfold Decimal.render
  cases shape x with
  | nan => exact Or.inl (by decide)
  | infinite negative => exact Or.inl (by cases negative <;> decide)
  | finite negative m e =>
    dsimp only
    rw [String.toList_ofList]
    refine Or.inr ⟨negative, _, rfl, ?_⟩
    split_ifs
    · exact Or.inl rfl
    · exact Or.inr ⟨_, _, Or.inl rfl⟩
    · exact Or.inr ⟨_, _, Or.inr rfl⟩

/-- The text of a double has digits, signs, a point and letters. -/
theorem numberChar_of_mem_render {x : Float} (h : c ∈ (Decimal.render x).toList) : NumberChar c := by
  rcases render_cases x with hword | ⟨negative, body, hbody, hform⟩
  · have hletters : (numberWords.all fun word => word.toList.all numberMarks.contains) = true := by decide
    have hall := List.all_eq_true.mp hletters _ hword
    exact Or.inr (List.contains_iff_mem.mp (List.all_eq_true.mp hall c h))
  · have hall : ∀ d ∈ body, NumberChar d := by
      intro d hd
      rcases hform with rfl | ⟨n, place, rfl | rfl⟩
      · simp only [List.mem_cons, List.not_mem_nil, or_false] at hd
        rcases hd with rfl | rfl | rfl
        · exact Or.inl (by decide)
        · exact Or.inr (by decide)
        · exact Or.inl (by decide)
      · exact numberChar_positional (fun _ => numberChar_digits) hd
      · exact numberChar_scientific (fun _ => numberChar_digits) hd
    rw [hbody] at h
    split_ifs at h
    · rcases List.mem_cons.mp h with rfl | hrest
      · exact Or.inr (by decide)
      · exact hall c hrest
    · exact hall c h

/-- The text of a double has a point, an exponent or letters. -/
theorem doubleMark_of_render (x : Float) : ∃ c ∈ (Decimal.render x).toList, c ∈ doubleMarks := by
  rcases render_cases x with hword | ⟨negative, body, hbody, hform⟩
  · have hletter : (numberWords.all fun word => word.toList.contains 'n') = true := by decide
    exact ⟨'n', List.contains_iff_mem.mp (List.all_eq_true.mp hletter _ hword), by decide⟩
  · have hmark : ∃ c ∈ body, c ∈ doubleMarks := by
      rcases hform with rfl | ⟨n, place, rfl | rfl⟩
      · exact ⟨'.', by decide, by decide⟩
      · exact ⟨'.', point_mem_positional, by decide⟩
      · exact ⟨'e', exponent_mem_scientific, by decide⟩
    obtain ⟨c, hc, htells⟩ := hmark
    refine ⟨c, ?_, htells⟩
    rw [hbody]
    split_ifs
    · exact List.mem_cons_of_mem _ hc
    · exact hc

/-- No double is written as an integer is. -/
theorem render_ne_toString (x : Float) (n : Int) : Decimal.render x ≠ toString n := by
  intro heq
  obtain ⟨c, hc, htells⟩ := doubleMark_of_render x
  rw [heq] at hc
  have hmarks : (doubleMarks.all fun d => !d.isDigit && d != '-') = true := by decide
  have hmark := List.all_eq_true.mp hmarks c htells
  rw [Bool.and_eq_true, Bool.not_eq_true', bne_iff_ne] at hmark
  rcases integerChar_of_mem hc with hdigit | hsign
  · rw [hmark.1] at hdigit
    cases hdigit
  · exact hmark.2 hsign

end Doubles

section Blanks

lemma isBlank_of_numberChar {c : Char} (h : NumberChar c) : Text.isBlank c = false := by
  rcases h with hdigit | hmark
  · have hrange : 48 ≤ c.toNat ∧ c.toNat ≤ 57 := by
      simp only [Char.isDigit, Bool.and_eq_true, decide_eq_true_eq, ge_iff_le, UInt32.le_iff_toNat_le]
        at hdigit
      exact hdigit
    unfold Text.isBlank Text.isAsciiBlank
    simp only [Bool.or_eq_false_iff, Bool.and_eq_false_iff, decide_eq_false_iff_not, beq_eq_false_iff_ne]
    omega
  · have hmarks : (numberMarks.all fun d => !Text.isBlank d) = true := by decide
    exact (Bool.not_eq_true' _).mp (List.all_eq_true.mp hmarks c hmark)

/-- A text without blanks is not changed when blanks are stripped from its ends. -/
lemma strip_of_not_blank {s : String} (h : ∀ c ∈ s.toList, Text.isBlank c = false) : Text.strip s = s := by
  have hkept : ∀ cs : List Char, (∀ c ∈ cs, Text.isBlank c = false) → cs.dropWhile Text.isBlank = cs := by
    intro cs hcs
    cases cs with
    | nil => rfl
    | cons c rest => rw [List.dropWhile_cons, hcs c List.mem_cons_self, if_neg Bool.false_ne_true]
  unfold Text.strip Text.stripEnds
  rw [hkept _ h, hkept _ fun c hc => h c (List.mem_reverse.mp hc), List.reverse_reverse,
    String.ofList_toList]

lemma strip_toString (n : Int) : Text.strip (toString n) = toString n := by
  refine strip_of_not_blank fun c hc => isBlank_of_numberChar ?_
  exact (integerChar_of_mem hc).imp_right fun hsign => by rw [hsign]; decide

lemma strip_render (x : Float) : Text.strip (Decimal.render x) = Decimal.render x :=
  strip_of_not_blank fun _ hc => isBlank_of_numberChar (numberChar_of_mem_render hc)

end Blanks

end WideDeep.Proofs
