import Mathlib.Tactic
import WideDeep.ModelFile.Reader
import WideDeep.Proofs.LayoutTables

/-!
# Layouts are made again

The reader of a model makes its layout from the tables and layers of the file. For the tables and
layers of a layout this is the layout itself, except that its regularization has been rounded.
-/

namespace WideDeep.Proofs
open Binary

/-- The regularization that is made of a number of a file: the sign of a zero is lost. -/
def restoredL2 (x : Float) : Stored Float :=
  if x == 0 then 0 else .plain x

/-- What the reader makes a layout from, given its tables and layers. -/
def rebuiltFrom (l : Layout) (l2 : Float) : LayoutSpec where
  categories := Model.categoriesOf l.wideTables ++ Model.categoriesOf l.embedTables
  dense := l.dense.map .int
  embed := l.embed.map .int
  embedWidths := l.embed.map fun c =>
    .int (((l.embedTables.find? (·.column == c)).map fun t => (t.width : Int)).getD 0)
  wide := l.wide.map .int
  hidden := l.hidden.map fun p => .int p.1
  activations := l.hidden.map fun p => .text p.2.name
  l2 := .real l2

lemma parse_name (a : Activation) : Activation.parse a.name = .ok a := by
  cases a <;> decide

lemma lower_name (a : Activation) : Text.lower a.name = a.name := by
  cases a <;> decide

lemma ofName_name (a : Activation) : Activation.ofName? a.name = some a := by
  cases a <;> decide

section Rebuilding

variable {l : Layout}

lemma lookup_categoriesOf {tables : List TableSize} (h : (tables.map (·.column)).Nodup)
    {t : TableSize} (ht : t ∈ tables) :
    (Model.categoriesOf tables).lookup t.column = some ((t.rows : Int) - 1) := by
  have hkeys : ((Model.categoriesOf tables).map Prod.fst).Nodup := by
    unfold Model.categoriesOf
    rwa [List.map_map]
  exact lookup_of_mem hkeys (List.mem_map_of_mem (f := fun t => (t.column, (t.rows : Int) - 1)) ht)

/-- Every table finds the number of categories that gives it its rows. -/
theorem lookup_categories (h : Coherent l) {t : TableSize}
    (ht : t ∈ l.embedTables ∨ t ∈ l.wideTables) :
    (Model.categoriesOf l.wideTables ++ Model.categoriesOf l.embedTables).lookup t.column =
      some ((t.rows : Int) - 1) := by
  have hembed : (l.embedTables.map (·.column)).Nodup := h.embed_columns ▸ h.embed_nodup
  have hwide : (l.wideTables.map (·.column)).Nodup := h.wide_columns ▸ h.wide_nodup
  rw [List.lookup_append]
  rcases ht with ht | ht
  · cases hfirst : (Model.categoriesOf l.wideTables).lookup t.column with
    | none => rw [Option.none_or, lookup_categoriesOf hembed ht]
    | some n =>
      -- The column is also wide, and its wide table has as many rows.
      obtain ⟨before, after, hsplit, -⟩ := List.lookup_eq_some_iff.mp hfirst
      have hmem : (t.column, n) ∈ Model.categoriesOf l.wideTables := by
        rw [hsplit]
        exact List.mem_append_right before List.mem_cons_self
      obtain ⟨w, hw, heq⟩ := List.mem_map.mp hmem
      have hcolumn : w.column = t.column := congrArg Prod.fst heq
      have hn : (w.rows : Int) - 1 = n := congrArg Prod.snd heq
      rw [Option.some_or, h.same_rows t ht w hw hcolumn.symm, hn]
  · rw [lookup_categoriesOf hwide ht, Option.some_or]

/-- A layout made from its own tables and layers. -/
theorem make_rebuiltFrom (h : Coherent l) (l2 : Float) :
    Layout.make (rebuiltFrom l l2) = .ok { l with l2 := restoredL2 l2 } := by
  have hembed : (l.embedTables.map (·.column)).Nodup := h.embed_columns ▸ h.embed_nodup
  have hwidth : ∀ t ∈ l.embedTables,
      ((l.embedTables.find? (·.column == t.column)).map fun t => (t.width : Int)).getD 0 =
        t.width := by
    intro t ht
    have hfound := find?_of_mem hembed ht
    rw [hfound]
    rfl
  have hwidths : (rebuiltFrom l l2).embedWidths = l.embedTables.map fun t => .int t.width := by
    change l.embed.map _ = _
    rw [← h.embed_columns, List.map_map]
    refine List.map_congr_left fun t ht => ?_
    rw [Function.comp_apply, hwidth t ht]
  refine layoutMake_eq_ok.mpr ⟨?_, ?_, mapM_toInt l.dense, mapM_toInt l.embed, mapM_toInt l.wide,
    ?_, ?_, ?_, ?_, ?_⟩
  · simp [rebuiltFrom]
  · simp [rebuiltFrom]
  · change Layout.regularization (.real l2) = .ok (restoredL2 l2)
    unfold Layout.regularization restoredL2 Document.isAbsent
    by_cases hzero : (l2 == 0) = true
    · rw [if_pos hzero, if_pos hzero]
    · rw [if_neg hzero, if_neg hzero]
      rfl
  · have hzip : l.embed.zip (rebuiltFrom l l2).embedWidths =
        l.embedTables.map fun t => (t.column, .int t.width) := by
      rw [hwidths, ← h.embed_columns, List.zip_map']
    rw [hzip, makeAll_eq_ok (by rwa [List.map_map])]
    rw [List.forall₂_map_left_iff, List.forall₂_same]
    intro t ht
    exact ⟨rfl, lookup_categories h (Or.inl ht), rfl⟩
  · have hwide : (l.wideTables.map (·.column)).Nodup := h.wide_columns ▸ h.wide_nodup
    have hones : (l.wide.map fun c => (c, Document.int 1)) =
        l.wideTables.map fun t => (t.column, .int 1) := by
      rw [← h.wide_columns, List.map_map]
      rfl
    rw [hones, makeAll_eq_ok (by rwa [List.map_map])]
    rw [List.forall₂_map_left_iff, List.forall₂_same]
    intro t ht
    refine ⟨rfl, lookup_categories h (Or.inr ht), ?_⟩
    rw [h.wide_width t ht]
    rfl
  · refine ⟨l.embedTables.map fun t => (t.width : Int), ?_, ?_⟩
    · rw [hwidths]
      exact mapM_toWhole l.embedTables (·.width)
    · rw [List.map_map]
      exact h.inputs_eq
  · refine ⟨l.hidden.map Prod.fst, l.hidden.map Prod.snd, ?_, ?_, ?_⟩
    · exact mapM_layerSize l.hidden Prod.fst
    · exact mapM_map_ok fun p => parse_name p.2
    · rw [← List.unzip_fst, ← List.unzip_snd]
      exact (List.zip_unzip l.hidden).symm

end Rebuilding

end WideDeep.Proofs
