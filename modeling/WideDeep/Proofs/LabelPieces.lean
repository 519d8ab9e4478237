import Mathlib.Tactic
import Mathlib.Data.Set.Card
import WideDeep.Proofs.Categories

/-!
# Pieces of labels

A label is split at the mark between synonyms in the only way there is: the pieces joined by the mark
give the label, and none of them holds the mark. The index of labels has these pieces as its keys, and
each of them stands for the last label that has it.
-/

namespace WideDeep.Proofs

section Splitting

/-- The mark between the synonyms of a label. -/
def synonymMark : List Char :=
  "@^".toList

/-- A text without the mark between synonyms. -/
def Unmarked (cs : List Char) : Prop :=
  ¬synonymMark <:+: cs

lemma unmarked_cons {a : Char} {cs : List Char} :
    Unmarked (a :: cs) ↔ ¬(a = '@' ∧ cs.head? = some '^') ∧ Unmarked cs := by
  have hhead : synonymMark <+: a :: cs ↔ a = '@' ∧ cs.head? = some '^' := by
    cases cs <;> simp [synonymMark, List.cons_prefix_cons, eq_comm]
  unfold Unmarked
  rw [List.infix_cons_iff, hhead, not_or]

/-- The first of several pieces grows by a character, unless the mark begins there. -/
lemma pieceChars_cons {a : Char} {cs : List Char} (h : ¬(a = '@' ∧ cs.head? = some '^')) :
    pieceChars (a :: cs) = (pieceChars cs).modifyHead (a :: ·) := by
  cases cs with
  | nil => rfl
  | cons b rest =>
    have hmark : ¬(a == '@' && b == '^') = true := by simpa using h
    have hne := pieceChars_ne_nil (b :: rest)
    rw [pieceChars, if_neg hmark]
    cases hpieces : pieceChars (b :: rest) with
    | nil => exact absurd hpieces hne
    | cons piece pieces => rfl

lemma pieceChars_mark (cs : List Char) : pieceChars (synonymMark ++ cs) = [] :: pieceChars cs := rfl

/-- A text without the mark is one piece. -/
lemma pieceChars_unmarked {cs : List Char} (h : Unmarked cs) : pieceChars cs = [cs] := by
  induction cs with
  | nil => rfl
  | cons a cs ih =>
    obtain ⟨hfirst, hrest⟩ := unmarked_cons.mp h
    rw [pieceChars_cons hfirst, ih hrest]
    rfl

/-- What stands before the first mark is the first piece. -/
lemma pieceChars_append {piece : List Char} (h : Unmarked piece) (cs : List Char) :
    pieceChars (piece ++ (synonymMark ++ cs)) = piece :: pieceChars cs := by
  induction piece with
  | nil => exact pieceChars_mark cs
  | cons a piece ih =>
    obtain ⟨hfirst, hrest⟩ := unmarked_cons.mp h
    -- the mark cannot begin in the piece and end in the mark behind it
    have hinside : ¬(a = '@' ∧ (piece ++ (synonymMark ++ cs)).head? = some '^') := by
      cases piece with
      | nil => simp [synonymMark]
      | cons b piece => exact hfirst
    rw [List.cons_append, pieceChars_cons hinside, ih hrest]
    rfl

theorem pieceChars_intercalate {pieces : List (List Char)} (hne : pieces ≠ [])
    (h : ∀ p ∈ pieces, Unmarked p) : pieceChars (synonymMark.intercalate pieces) = pieces := by
  induction pieces with
  | nil => exact absurd rfl hne
  | cons p rest ih =>
    obtain ⟨hp, hrest⟩ := List.forall_mem_cons.mp h
    cases rest with
    | nil => rw [List.intercalate_singleton, pieceChars_unmarked hp]
    | cons q rest =>
      rw [List.intercalate_cons_cons, List.append_assoc, pieceChars_append hp,
        ih (List.cons_ne_nil q rest) hrest]

lemma intercalate_modifyHead (a : Char) {pieces : List (List Char)} (hne : pieces ≠ []) :
    synonymMark.intercalate (pieces.modifyHead (a :: ·)) = a :: synonymMark.intercalate pieces := by
  cases pieces with
  | nil => exact absurd rfl hne
  | cons p rest => cases rest <;> simp [List.intercalate_cons_cons, List.intercalate_singleton]

/-- The pieces joined by the mark are the text again. -/
theorem intercalate_pieceChars (cs : List Char) :
    synonymMark.intercalate (pieceChars cs) = cs := by
  fun_induction pieceChars cs with
  | case1 => rfl
  | case2 c => rfl
  | case3 a b rest hmark ih =>
    obtain ⟨piece, pieces, hrest⟩ := List.exists_cons_of_ne_nil (pieceChars_ne_nil rest)
    simp only [Bool.and_eq_true, beq_iff_eq] at hmark
    obtain ⟨rfl, rfl⟩ := hmark
    rw [hrest] at ih ⊢
    rw [List.intercalate_cons_cons, List.append_assoc, ih]
    rfl
  | case4 a b rest hmark piece pieces hrest ih =>
    have hgrown := intercalate_modifyHead a (List.cons_ne_nil piece pieces)
    rw [← hrest, ih, hrest] at hgrown
    exact hgrown
  | case5 a b rest hmark hrest ih => exact absurd hrest (pieceChars_ne_nil _)

/-- A text begins with its first piece. -/
lemma head?_of_piece {cs piece : List Char} {pieces : List (List Char)} {c : Char}
    (h : pieceChars cs = piece :: pieces) (hc : piece.head? = some c) : cs.head? = some c := by
  rw [← intercalate_pieceChars cs, h]
  cases pieces <;> simp [List.intercalate_cons_cons, List.intercalate_singleton, hc]

/-- No piece of a text holds the mark. -/
theorem unmarked_pieceChars (cs : List Char) : ∀ p ∈ pieceChars cs, Unmarked p := by
  fun_induction pieceChars cs with
  | case1 => simp [Unmarked, synonymMark]
  | case2 c => simp [Unmarked, synonymMark, List.infix_cons_iff]
  | case3 a b rest hmark ih =>
    exact List.forall_mem_cons.mpr ⟨by simp [Unmarked, synonymMark], ih⟩
  | case4 a b rest hmark piece pieces hrest ih =>
    have hfirst : ¬(a = '@' ∧ (b :: rest).head? = some '^') := by simpa using hmark
    rw [hrest, List.forall_mem_cons] at ih
    refine List.forall_mem_cons.mpr ⟨unmarked_cons.mpr ⟨?_, ih.1⟩, ih.2⟩
    exact fun h => hfirst ⟨h.1, head?_of_piece hrest h.2⟩
  | case5 a b rest hmark hrest ih => exact absurd hrest (pieceChars_ne_nil _)

end Splitting

section Labels

/-- A label split at the mark: the pieces joined by the mark give the label, and none of them holds the
mark. -/
structure SplitAtMark (label : String) (pieces : List String) : Prop where
  ne_nil : pieces ≠ []
  joined : synonymMark.intercalate (pieces.map String.toList) = label.toList
  unmarked : ∀ p ∈ pieces, Unmarked p.toList

/-- A label can be split in one way, which gives its synonyms. -/
theorem splitAtMark_iff {label : String} {pieces : List String} :
    SplitAtMark label pieces ↔ pieces = synonyms label := by
  have htexts : ∀ texts : List (List Char), (texts.map String.ofList).map String.toList = texts := by
    intro texts
    simp [Function.comp_def]
  constructor
  · intro h
    have hpieces : pieceChars label.toList = pieces.map String.toList := by
      rw [← h.joined]
      apply pieceChars_intercalate
      · simpa using h.ne_nil
      · simpa using h.unmarked
    unfold synonyms
    rw [hpieces]
    simp [Function.comp_def]
  · rintro rfl
    unfold synonyms
    refine ⟨?_, ?_, ?_⟩
    · simpa using pieceChars_ne_nil label.toList
    · rw [htexts, intercalate_pieceChars]
    · simpa using unmarked_pieceChars label.toList

/-- A text is one of the pieces into which a label is split. -/
def PieceOf (label s : String) : Prop :=
  ∃ pieces, SplitAtMark label pieces ∧ s ∈ pieces

lemma pieceOf_iff {label s : String} : PieceOf label s ↔ s ∈ synonyms label := by
  simp [PieceOf, splitAtMark_iff]

variable (labels : List String)

/-- The places of the labels that have a text as a piece. -/
def piecePlaces (s : String) : Set Nat :=
  {i | ∃ label, labels[i]? = some label ∧ PieceOf label s}

/-- All pieces of all labels. -/
def piecesOf : Set String :=
  {s | ∃ label ∈ labels, PieceOf label s}

lemma lastWith_iff {s : String} {i : Nat} :
    LastWith labels s i ↔ IsGreatest (piecePlaces labels s) i := by
  constructor
  · intro h
    obtain ⟨label, hlabel, hs⟩ := h.has
    refine ⟨⟨label, hlabel, pieceOf_iff.mpr hs⟩, ?_⟩
    rintro j ⟨other, hother, hpiece⟩
    by_contra hlater
    exact h.later j other (not_le.mp hlater) hother (pieceOf_iff.mp hpiece)
  · rintro ⟨⟨label, hlabel, hpiece⟩, hbound⟩
    refine ⟨⟨label, hlabel, pieceOf_iff.mp hpiece⟩, fun j other hj hother hs => ?_⟩
    exact absurd (hbound ⟨other, hother, pieceOf_iff.mpr hs⟩) (not_le.mpr hj)

lemma mem_piecesOf {s : String} : s ∈ piecesOf labels ↔ s ∈ allSynonyms labels := by
  simp [piecesOf, allSynonyms, pieceOf_iff]

lemma ncard_piecesOf : (piecesOf labels).ncard = (allSynonyms labels).dedup.length := by
  have hset : piecesOf labels = (allSynonyms labels).toFinset := by
    ext s
    simp [mem_piecesOf]
  rw [hset, Set.ncard_coe_finset, List.card_toFinset]

/-- No two labels have a piece in common. -/
def NoSharedPiece : Prop :=
  labels.Pairwise fun a b => ∀ s, PieceOf a s → ¬PieceOf b s

lemma noSharedPiece_iff : NoSharedPiece labels ↔ Apart labels := by
  simp only [NoSharedPiece, Apart, pieceOf_iff]

/-- The keys of the index of labels are their pieces, each of them once, and a piece stands for the last
label that has it. So the number of missing values is the number of pieces. If no two labels have a
piece in common, it is at least the number of labels, and no piece stands for it. -/
theorem index_of_pieces :
    ((CategoryIndex.ofLabels labels).map Prod.fst).Nodup ∧
    (∀ s, s ∈ (CategoryIndex.ofLabels labels).map Prod.fst ↔ s ∈ piecesOf labels) ∧
    (∀ s i, (CategoryIndex.ofLabels labels).get? s = some i ↔ IsGreatest (piecePlaces labels s) i) ∧
    (CategoryIndex.ofLabels labels).missing = (piecesOf labels).ncard ∧
    (NoSharedPiece labels → labels.length ≤ (CategoryIndex.ofLabels labels).missing ∧
      ∀ s i, (CategoryIndex.ofLabels labels).get? s = some i →
        i ≠ (CategoryIndex.ofLabels labels).missing) := by
  have hkeys := keys_ofLabels labels
  have hmissing := missing_ofLabels labels
  refine ⟨?_, ?_, ?_, ?_, ?_⟩
  · exact hkeys.nodup_iff.mpr (List.nodup_dedup _)
  · intro s
    rw [hkeys.mem_iff, List.mem_dedup, mem_piecesOf]
  · intro s i
    rw [get?_ofLabels, lastWith_iff]
  · rw [hmissing, ncard_piecesOf]
  · intro hapart
    have hmany := length_le_of_apart ((noSharedPiece_iff labels).mp hapart)
    refine ⟨by omega, fun s i hget => ?_⟩
    have hlt := (get?_ofLabels.mp hget).lt_length
    omega

end Labels

section Sample

/-- Labels of which one joins two synonyms and one is nothing but the mark. -/
def redLabels : List String :=
  ["red@^crimson", "blue", "@^"]

theorem index_of_pieces_reds : NoSharedPiece redLabels ∧
    redLabels.length ≤ (CategoryIndex.ofLabels redLabels).missing ∧
    IsGreatest (piecePlaces redLabels "crimson") 0 ∧ IsGreatest (piecePlaces redLabels "") 2 := by
  have hapart : NoSharedPiece redLabels := by
    rw [noSharedPiece_iff]
    unfold Apart
    decide +kernel
  obtain ⟨-, -, hvalue, -, hmany⟩ := index_of_pieces redLabels
  refine ⟨hapart, (hmany hapart).1, (hvalue _ _).mp ?_, (hvalue _ _).mp ?_⟩ <;> decide +kernel

end Sample

end WideDeep.Proofs
