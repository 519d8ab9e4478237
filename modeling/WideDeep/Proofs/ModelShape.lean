import Mathlib.Tactic
import WideDeep.Proofs.BatchedLogits
import WideDeep.Proofs.ParameterSets

/-!
# The shape of a model

A model whose layout has one table for each column is well formed: every column has a table of the
planned rows, and the layers lead from the inputs of the columns to one number. A record of as many
dense values as the layout reads is scored unless a table that is read has no row.
-/

namespace WideDeep.Proofs

variable {α : Type}

section Tensors

lemma length_pieces (width n : Nat) (xs : List α) : (Tensor.pieces width n xs).length = n := by
  induction n generalizing xs with
  | zero => rfl
  | succ n ih => rw [Tensor.pieces, List.length_cons, ih]

lemma length_of_mem_pieces {width n : Nat} {xs row : List α} (hsize : xs.length = n * width)
    (h : row ∈ Tensor.pieces width n xs) : row.length = width := by
  induction n generalizing xs with
  | zero => cases h
  | succ n ih =>
    rw [Nat.succ_mul] at hsize
    rcases List.mem_cons.mp h with rfl | hrest
    · rw [List.length_take]
      omega
    · refine ih ?_ hrest
      rw [List.length_drop]
      omega

variable {t : Tensor α} {n width : Nat}

lemma rows_of_shape (h : t.shape = [n, width]) : t.rows = Tensor.pieces width n t.data := by
  unfold Tensor.rows
  rw [h]

lemma length_rows (h : t.shape = [n, width]) : t.rows.length = n := by
  rw [rows_of_shape h, length_pieces]

lemma length_of_mem_rows (h : t.shape = [n, width]) : ∀ row ∈ t.rows, row.length = width := by
  intro row hrow
  rw [rows_of_shape h] at hrow
  refine length_of_mem_pieces ?_ hrow
  rw [t.size_eq, h, volume, volume, volume, Nat.mul_one]

lemma length_of_vector (h : t.shape = [n]) : t.data.length = n := by
  rw [t.size_eq, h, volume, volume, Nat.mul_one]

end Tensors

section Layers

/-- A layer has a bias for each output, and for each output a weight for each input. -/
structure LayerFits (inputs outputs : Nat) (l : Layer α) : Prop where
  weight : l.weight.length = outputs
  rows : ∀ row ∈ l.weight, row.length = inputs
  bias : l.bias.length = outputs

/-- Layers that lead from a number of inputs to one linear output. -/
inductive LayersFit : Nat → List (Layer α) → Prop
  | last {inputs : Nat} {l : Layer α} (fits : LayerFits inputs 1 l)
      (linear : l.activation = .linear) : LayersFit inputs [l]
  | hidden {inputs outputs : Nat} {l : Layer α} {rest : List (Layer α)}
      (fits : LayerFits inputs outputs l) (later : LayersFit outputs rest) :
      LayersFit inputs (l :: rest)

variable [Scalar α]

/-- Layers applied one after the other, each to as many numbers as it has inputs. -/
inductive Evaluates : List (Layer α) → List α → List α → Prop
  | done (x : List α) : Evaluates [] x x
  | layer {l : Layer α} {rest : List (Layer α)} {x y : List α} {outputs : Nat}
      (fits : LayerFits x.length outputs l) (later : Evaluates rest (l.apply x) y) :
      Evaluates (l :: rest) x y

lemma length_apply {inputs outputs : Nat} {l : Layer α} (h : LayerFits inputs outputs l)
    (x : List α) : (l.apply x).length = outputs := by
  unfold Layer.apply Layer.linear
  rw [List.length_map, List.length_zipWith, h.weight, h.bias, Nat.min_self]

/-- Layers that fit give one number for as many inputs as they have. -/
theorem evaluates_of_fit {inputs : Nat} {layers : List (Layer α)} (h : LayersFit inputs layers)
    {x : List α} (hx : x.length = inputs) : ∃ y, Evaluates layers x [y] := by
  induction h generalizing x with
  | last fits linear =>
    subst hx
    obtain ⟨y, hy⟩ := List.length_eq_one_iff.mp (length_apply fits x)
    exact ⟨y, Evaluates.layer fits (hy ▸ Evaluates.done _)⟩
  | hidden fits later ih =>
    subst hx
    obtain ⟨y, hy⟩ := ih (length_apply fits x)
    exact ⟨y, Evaluates.layer fits hy⟩

lemma deepSum_of_evaluates {layers : List (Layer α)} {x y : List α} (h : Evaluates layers x y) :
    Model.deepSum layers x = y.headD 0 := by
  induction h with
  | done x => rfl
  | layer fits later ih => exact ih

/-- The first of several layers fits if its weights have the shapes of the layout. -/
lemma layerFits_first (m : Model α) (position : Nat) (s : LayerSize) (rest : List LayerSize)
    (h : ∀ p ∈ Layout.layerShapes position (s :: rest), (m.parameters.tensor p.1).shape = p.2) :
    LayerFits s.inputs s.outputs (⟨(m.parameters.tensor (.deepWeight position)).rows,
      (m.parameters.tensor (.deepBias position)).data, s.activation⟩ : Layer α) := by
  have hweight := h (.deepWeight position, [s.outputs, s.inputs]) List.mem_cons_self
  have hbias := h (.deepBias position, [s.outputs]) (List.mem_cons_of_mem _ List.mem_cons_self)
  exact ⟨length_rows hweight, length_of_mem_rows hweight, length_of_vector hbias⟩

/-- The layers of a layout fit if their weights have the shapes of the layout. -/
theorem layersFit_layersFrom (m : Model α) (position inputs : Nat) (hidden : List (Nat × Activation))
    (h : ∀ p ∈ Layout.layerShapes position (Layout.layersFrom inputs hidden),
      (m.parameters.tensor p.1).shape = p.2) :
    LayersFit inputs (m.layersFrom position (Layout.layersFrom inputs hidden)) := by
  induction hidden generalizing position inputs with
  | nil => exact LayersFit.last (layerFits_first m position _ _ h) rfl
  | cons p rest ih =>
    refine LayersFit.hidden (layerFits_first m position _ _ h) (ih (position + 1) p.1 fun q hq => ?_)
    exact h q (List.mem_cons_of_mem _ (List.mem_cons_of_mem _ hq))

end Layers

section Tables

variable {l : Layout}

/-- Every table that a layout reads has a row. -/
def Filled (l : Layout) : Prop :=
  ∀ t ∈ l.embedTables ++ l.wideTables, 0 < t.rows

/-- A part of the rows is read at each column. -/
lemma checkLookups_eq_ok {tables : List TableSize} {columns : List Int} {g : Grid Int}
    (hwidth : columns.length ≤ g.width) :
    Model.checkLookups tables columns g = .ok () ↔
      ∀ c ∈ columns, ∃ t, tables.find? (·.column == c) = some t ∧ (t.rows = 0 → g.rows = []) := by
  unfold Model.checkLookups
  rw [forM_eq_ok]
  constructor
  · intro h c hc
    obtain ⟨i, hi⟩ := List.mem_iff_getElem?.mp hc
    obtain ⟨t, ht, -⟩ := map_eq_ok.mp (h (c, i) (List.mem_zipIdx_iff_getElem?.mpr hi))
    obtain ⟨hfind, -, hrows⟩ := tableFor_eq_ok.mp ht
    exact ⟨t, hfind, hrows⟩
  · rintro h ⟨c, i⟩ hmem
    have hi := List.mem_zipIdx_iff_getElem?.mp hmem
    obtain ⟨t, hfind, hrows⟩ := h c (List.mem_of_getElem? hi)
    have hlt : i < g.width := (List.getElem?_eq_some_iff.mp hi).1.trans_le hwidth
    rw [tableFor_eq_ok.mpr ⟨hfind, hlt, hrows⟩]
    rfl

/-- If every column has a table and indices, then look-ups fail at tables without rows alone. -/
lemma checkLookups_error {tables : List TableSize} {columns : List Int} {g : Grid Int} {e : Error}
    (hcolumns : ∀ c ∈ columns, c ∈ tables.map (·.column)) (hwidth : columns.length ≤ g.width)
    (h : Model.checkLookups tables columns g = .error e) : e = .emptyTable := by
  obtain ⟨⟨c, i⟩, hmem, hstep⟩ := forM_error h
  have hi := List.mem_zipIdx_iff_getElem?.mp hmem
  have hlt : i < columns.length := (List.getElem?_eq_some_iff.mp hi).1
  obtain ⟨t, ht, hcolumn⟩ := List.mem_map.mp (hcolumns c (List.mem_of_getElem? hi))
  have hfail := map_eq_error.mp hstep
  unfold Model.tableFor at hfail
  split at hfail
  · rename_i hnone
    have hother := List.find?_eq_none.mp hnone t ht
    simp [hcolumn] at hother
  · split_ifs at hfail with hnarrow
    · omega
    · exact (Except.error.inj hfail).symm

lemma find?_table {tables : List TableSize} (hnodup : (tables.map (·.column)).Nodup) {t : TableSize}
    (ht : t ∈ tables) : tables.find? (·.column == t.column) = some t :=
  find?_of_mem hnodup ht

/-- Tables of distinct columns are all read if something is read at each of their columns. -/
lemma checkLookups_tables {tables : List TableSize} {columns : List Int} {g : Grid Int}
    (hnodup : (tables.map (·.column)).Nodup) (hcolumns : tables.map (·.column) = columns)
    (hwidth : columns.length ≤ g.width) (hrows : g.rows ≠ []) :
    Model.checkLookups tables columns g = .ok () ↔ ∀ t ∈ tables, 0 < t.rows := by
  rw [checkLookups_eq_ok hwidth, ← hcolumns, List.forall_mem_map]
  refine forall₂_congr fun t ht => ?_
  rw [find?_table hnodup ht]
  simp [hrows, Nat.pos_iff_ne_zero]

lemma embedWidth_of_coherent (h : Coherent l) :
    Model.embedWidth l = (l.embedTables.map (·.width)).foldl (· + ·) 0 := by
  have hnodup : (l.embedTables.map (·.column)).Nodup := h.embed_columns ▸ h.embed_nodup
  unfold Model.embedWidth
  rw [← h.embed_columns, List.map_map]
  congr 1
  refine List.map_congr_left fun t ht => ?_
  rw [Function.comp_apply, find?_table hnodup ht]
  rfl

lemma checkLookups_cons (tables : List TableSize) (first : Int) (rest : List Int) (g : Grid Int) :
    (do Model.checkLookups tables [first] g
        Model.checkLookups tables (first :: rest) g) =
      Model.checkLookups tables (first :: rest) g := by
  unfold Model.checkLookups
  rw [List.zipIdx_cons, List.zipIdx_cons, List.zipIdx_nil]
  exact forM_head_twice _ _ _

/-- What is checked for a single record of as many dense values as the layout reads. -/
lemma resultCount_eq (h : Coherent l) {dense : List α} (hdense : dense.length = l.dense.length)
    (embed wide : List SparseInput) :
    Model.resultCount l (Model.single l dense embed wide) = (do
      Model.checkLookups l.wideTables l.wide (Model.single l dense embed wide).wide
      Model.checkLookups l.embedTables l.embed (Model.single l dense embed wide).embed
      pure 1) := by
  generalize hbatch : Model.single l dense embed wide = b
  have hrows : b.dense.rows.length = 1 := by rw [← hbatch]; rfl
  have hembedRows : b.embed.rows.length = 1 := by rw [← hbatch]; rfl
  have hwideRows : b.wide.rows.length = 1 := by rw [← hbatch]; rfl
  have hwidth : (b.dense.width + Model.embedWidth l != l.inputs) = false := by
    rw [← hbatch, embedWidth_of_coherent h, h.inputs_eq]
    change (dense.length + _ != _) = false
    rw [hdense, bne_self_eq_false]
  unfold Model.resultCount Model.wideCount
  simp only [hrows, hembedRows, hwideRows, hwidth, bne_self_eq_false, Bool.and_false,
    Bool.false_eq_true, if_false]
  cases l.wide with
  | nil => rfl
  | cons first rest =>
    rw [← checkLookups_cons l.wideTables first rest]
    dsimp only
    cases Model.checkLookups l.wideTables [first] b.wide with
    | error e => rfl
    | ok u =>
      cases Model.checkLookups l.wideTables (first :: rest) b.wide with
      | error e => rfl
      | ok u => rfl

/-- A record of as many dense values as the layout reads gives one result, unless a table has no
row. -/
theorem resultCount_single (h : Coherent l) {dense : List α} (hdense : dense.length = l.dense.length)
    (embed wide : List SparseInput) :
    (Filled l → Model.resultCount l (Model.single l dense embed wide) = .ok 1) ∧
    (¬Filled l → Model.resultCount l (Model.single l dense embed wide) = .error .emptyTable) := by
  have hembedNodup : (l.embedTables.map (·.column)).Nodup := h.embed_columns ▸ h.embed_nodup
  have hwideNodup : (l.wideTables.map (·.column)).Nodup := h.wide_columns ▸ h.wide_nodup
  have hembed : Model.checkLookups l.embedTables l.embed (Model.single l dense embed wide).embed =
      .ok () ↔ ∀ t ∈ l.embedTables, 0 < t.rows :=
    checkLookups_tables hembedNodup h.embed_columns le_rfl (List.cons_ne_nil _ _)
  have hwide : Model.checkLookups l.wideTables l.wide (Model.single l dense embed wide).wide =
      .ok () ↔ ∀ t ∈ l.wideTables, 0 < t.rows :=
    checkLookups_tables hwideNodup h.wide_columns le_rfl (List.cons_ne_nil _ _)
  rw [resultCount_eq h hdense]
  unfold Filled
  rw [List.forall_mem_append, ← hembed, ← hwide]
  constructor
  · rintro ⟨hembedOk, hwideOk⟩
    rw [hembedOk, hwideOk]
    rfl
  · intro hnot
    cases hwideRun : Model.checkLookups l.wideTables l.wide (Model.single l dense embed wide).wide with
    | error e =>
      rw [checkLookups_error (by simp [h.wide_columns]) le_rfl hwideRun]
      rfl
    | ok u =>
      cases hembedRun : Model.checkLookups l.embedTables l.embed
          (Model.single l dense embed wide).embed with
      | error e =>
        rw [checkLookups_error (by simp [h.embed_columns]) le_rfl hembedRun]
        rfl
      | ok u => exact absurd ⟨hembedRun, hwideRun⟩ hnot

end Tables

section Models

variable [Scalar α] {m : Model α}

/-- A model of which nothing is missing: every column that it reads has a table with as many rows as
its layout plans, and the layers lead from the inputs of the columns to one linear output. -/
structure WellFormed (m : Model α) : Prop where
  embed : ∀ c ∈ m.layout.embed, ∃ t ∈ m.layout.embedTables, t.column = c ∧
    (m.embedRows c).length = t.rows ∧ ∀ row ∈ m.embedRows c, row.length = t.width
  wide : ∀ c ∈ m.layout.wide, ∃ t ∈ m.layout.wideTables, t.column = c ∧
    (m.wideRows c).length = t.rows ∧ ∀ row ∈ m.wideRows c, row.length = 1
  inputs : m.layout.inputs = m.layout.dense.length + Model.embedWidth m.layout
  layers : LayersFit m.layout.inputs m.layers

omit [Scalar α] in
lemma shape_parameter [Zero α] (h : Coherent m.layout) :
    ∀ p ∈ m.layout.shapes, (m.parameters.tensor p.1).shape = p.2 := fun _ hp =>
  shape_tensor (names_nodup (distinct_of_coherent h)) m.parameters_fit hp

omit [Scalar α] in
lemma shape_embed [Zero α] (h : Coherent m.layout) {t : TableSize} (ht : t ∈ m.layout.embedTables) :
    (m.parameters.tensor (.embedding t.column)).shape = [t.rows, t.width] :=
  shape_parameter h _ (mem_shapes_embed ht)

omit [Scalar α] in
lemma shape_wide [Zero α] (h : Coherent m.layout) {t : TableSize} (ht : t ∈ m.layout.wideTables) :
    (m.parameters.tensor (.wide t.column)).shape = [t.rows, 1] := by
  have hshape := shape_parameter h _ (mem_shapes_wide ht)
  rwa [h.wide_width t ht] at hshape

/-- The weights of a model with one table for each column have the shapes of its layout. -/
theorem wellFormed_of_coherent (h : Coherent m.layout) : WellFormed m := by
  refine ⟨fun c hc => ?_, fun c hc => ?_, ?_, ?_⟩
  · rw [← h.embed_columns] at hc
    obtain ⟨t, ht, rfl⟩ := List.mem_map.mp hc
    exact ⟨t, ht, rfl, length_rows (shape_embed h ht), length_of_mem_rows (shape_embed h ht)⟩
  · rw [← h.wide_columns] at hc
    obtain ⟨t, ht, rfl⟩ := List.mem_map.mp hc
    exact ⟨t, ht, rfl, length_rows (shape_wide h ht), length_of_mem_rows (shape_wide h ht)⟩
  · rw [embedWidth_of_coherent h, h.inputs_eq]
  · exact layersFit_layersFrom m 0 _ _ fun p hp => shape_parameter h p (mem_shapes_layers hp)

/-- What a model reads of a record that is given by sparse inputs. -/
def inputsFor (l : Layout) (dense : List α) (embed wide : List SparseInput) : Inputs α :=
  ⟨dense, l.embed.map (SparseInput.indexOf embed), l.wide.map (SparseInput.indexOf wide)⟩

/-- A record is scored from numbers of the model alone: each look-up finds a row of its table, and
each layer is applied to as many numbers as it has inputs. -/
structure Determined (m : Model α) (r : Inputs α) : Prop where
  embed : ∀ p ∈ m.layout.embed.zip r.embed, Model.lookup (m.embedRows p.1) p.2 ∈ m.embedRows p.1
  wide : ∀ p ∈ m.layout.wide.zip r.wide, Model.lookup (m.wideRows p.1) p.2 ∈ m.wideRows p.1
  deep : ∃ y, Evaluates m.layers (m.deepInputs r) [y] ∧ m.logit r = y + m.wideSum r.wide

lemma resolve_lt {rows : Nat} (hrows : 0 < rows) (index : Int) : resolve rows index < rows := by
  unfold resolve
  split <;> omega

lemma resolve_outside {rows : Nat} {index : Int} (h : index < 0 ∨ rows ≤ index) :
    resolve rows index = rows - 1 := by
  apply if_neg
  omega

omit [Scalar α] in
/-- Whatever the index is, it reads a row of a table that has one. -/
lemma lookup_mem {rows : List (List α)} (hrows : 0 < rows.length) (index : Int) :
    Model.lookup rows index ∈ rows := by
  have hlt := resolve_lt hrows index
  unfold Model.lookup
  rw [List.getD_eq_getElem?_getD, List.getElem?_eq_getElem hlt, Option.getD_some]
  exact List.getElem_mem hlt

/-- If every table has a row, then every record of as many dense values as the layout reads is
scored from the numbers of the model alone. -/
theorem determined_of_filled (h : Coherent m.layout) (hfilled : Filled m.layout) {dense : List α}
    (hdense : dense.length = m.layout.dense.length) (embed wide : List SparseInput) :
    Determined m (inputsFor m.layout dense embed wide) := by
  have hwell := wellFormed_of_coherent h
  have hembed : ∀ c ∈ m.layout.embed, ∀ index, Model.lookup (m.embedRows c) index ∈ m.embedRows c := by
    intro c hc index
    obtain ⟨t, ht, -, hrows, -⟩ := hwell.embed c hc
    exact lookup_mem (hrows ▸ hfilled t (List.mem_append_left _ ht)) index
  have hwide : ∀ c ∈ m.layout.wide, ∀ index, Model.lookup (m.wideRows c) index ∈ m.wideRows c := by
    intro c hc index
    obtain ⟨t, ht, -, hrows, -⟩ := hwell.wide c hc
    exact lookup_mem (hrows ▸ hfilled t (List.mem_append_right _ ht)) index
  have hwidth : ∀ t ∈ m.layout.embedTables, ∀ index,
      (Model.lookup (m.embedRows t.column) index).length = t.width := by
    intro t ht index
    have hread := hembed t.column (h.embed_columns ▸ List.mem_map_of_mem ht) index
    exact length_of_mem_rows (shape_embed h ht) _ hread
  have hlength : (m.deepInputs (inputsFor m.layout dense embed wide)).length = m.layout.inputs := by
    unfold Model.deepInputs inputsFor
    dsimp only
    rw [List.length_append, hdense, h.inputs_eq, ← h.embed_columns, List.map_map, List.zip_map',
      List.flatMap_map, List.length_flatMap, ← List.sum_eq_foldl_nat]
    congr 2
    exact List.map_congr_left fun t ht => hwidth t ht _
  obtain ⟨y, hy⟩ := evaluates_of_fit hwell.layers hlength
  refine ⟨fun p hp => hembed p.1 (List.of_mem_zip hp).1 p.2,
    fun p hp => hwide p.1 (List.of_mem_zip hp).1 p.2, y, hy, ?_⟩
  unfold Model.logit
  rw [deepSum_of_evaluates hy]
  rfl

lemma fitsIndex_indexOf {inputs : List SparseInput} (h : ∀ s ∈ inputs, fitsIndex s.index = true)
    (column : Int) : fitsIndex (SparseInput.indexOf inputs column) = true := by
  unfold SparseInput.indexOf
  cases hfind : inputs.reverse.find? (·.column == column) with
  | none => rfl
  | some s => exact h s (List.mem_reverse.mp (List.mem_of_find?_eq_some hfind))

omit [Scalar α] in
/-- The inputs that a model takes from a batch are the rows of the batch. -/
lemma records_rows {l : Layout} {b : Batch α} (rows : List (Inputs α))
    (hdenseRows : b.dense.rows = rows.map (·.dense)) (hembedRows : b.embed.rows = rows.map (·.embed))
    (hwideRows : b.wide.rows = rows.map (·.wide))
    (hembed : ∀ r ∈ rows, r.embed.length = l.embed.length)
    (hwide : ∀ r ∈ rows, r.wide.length = l.wide.length) :
    Model.records l b rows.length = rows := by
  have hstretch : ∀ {β : Type} (part : Inputs α → β),
      stretch rows.length (rows.map part) = rows.map part := by
    intro β part
    have hself := stretch_length (rows.map part)
    rwa [List.length_map] at hself
  have hpart : ∀ (columns : List Int) (part : Inputs α → List Int),
      (∀ r ∈ rows, (part r).length = columns.length) →
      (if columns.isEmpty then List.replicate rows.length [] else stretch rows.length (rows.map part)) =
        rows.map part := by
    intro columns part hlength
    by_cases hempty : columns.isEmpty = true
    · rw [if_pos hempty, ← List.map_const']
      refine List.map_congr_left fun r hr => (List.eq_nil_of_length_eq_zero ?_).symm
      rw [hlength r hr, List.isEmpty_iff.mp hempty, List.length_nil]
    · rw [if_neg hempty, hstretch]
  unfold Model.records
  dsimp only
  rw [hdenseRows, hembedRows, hwideRows, hpart l.embed _ hembed, hpart l.wide _ hwide, hstretch,
    List.zip_map', List.zip_map', List.map_map]
  exact List.map_id' rows

omit [Scalar α] in
lemma records_single (l : Layout) (dense : List α) (embed wide : List SparseInput) :
    Model.records l (Model.single l dense embed wide) 1 = [inputsFor l dense embed wide] :=
  records_rows [inputsFor l dense embed wide] rfl rfl rfl
    (List.forall_mem_singleton.mpr (List.length_map _))
    (List.forall_mem_singleton.mpr (List.length_map _))

omit [Scalar α] in
lemma regular_single (l : Layout) (dense : List α) (embed wide : List SparseInput) :
    Regular (Model.single l dense embed wide) :=
  ⟨List.forall_mem_singleton.mpr (List.length_map _),
    List.forall_mem_singleton.mpr (List.length_map _)⟩

/-- A record of as many dense values as the layout reads, with indices that are machine words, has
exactly one score if every table has a row, and cannot be scored otherwise. -/
theorem compute_of_coherent (h : Coherent m.layout) {dense : List α}
    (hdense : dense.length = m.layout.dense.length) {embed wide : List SparseInput}
    (hindices : ∀ s ∈ embed ++ wide, fitsIndex s.index = true) :
    (Filled m.layout →
      m.compute dense embed wide = .ok [m.score (inputsFor m.layout dense embed wide)]) ∧
    (¬Filled m.layout → m.compute dense embed wide = .error .emptyTable) := by
  obtain ⟨hembed, hwide⟩ := List.forall_mem_append.mp hindices
  have hwords : (m.layout.embed.map (SparseInput.indexOf embed) ++
      m.layout.wide.map (SparseInput.indexOf wide)).all fitsIndex = true := by
    rw [List.all_append, List.all_map, List.all_map, Bool.and_eq_true, List.all_eq_true,
      List.all_eq_true]
    exact ⟨fun c _ => fitsIndex_indexOf hembed c, fun c _ => fitsIndex_indexOf hwide c⟩
  obtain ⟨hfilled, hlacking⟩ := resultCount_single h hdense embed wide
  unfold Model.compute Model.scores
  rw [if_pos hwords, logits_eq (regular_single _ _ _ _)]
  constructor
  · intro hrows
    rw [hfilled hrows]
    change Except.ok (((Model.records m.layout _ 1).map m.logit).map sigmoid) = _
    rw [records_single]
    rfl
  · intro hnone
    rw [hlacking hnone]
    rfl

end Models

section Sample

/-- A model whose weights count from zero in each parameter, so that the rows of its tables differ. -/
def countedModel (l : Layout) : Model Float32 :=
  let counted (n : Nat) : List Float32 :=
    (List.range n).map fun k => Binary.narrow (Binary.doubleOfInt k)
  Model.ofParameters l (l.shapes.map fun p => (p.1, Tensor.ofList p.2 (counted (volume p.2))))

end Sample

end WideDeep.Proofs
