import Mathlib.Tactic
import WideDeep.Proofs.ColumnCodec
import WideDeep.Proofs.LayoutRebuild
import WideDeep.Proofs.ParameterSets

/-!
# Models are read back

The reader of a model gives back the layout and every weight that the writer put into a file. It
finds the sizes of the tables and layers in the file itself, checks that they fit together, and
makes the layout again from them.
-/

namespace WideDeep.Proofs
open Binary

variable {α : Type} [Zero α]

/-- The weights of a model as a file holds them. -/
def storedWeights (store : α → Stored Float32) (m : Model α) : Parameters Float32 :=
  m.parameters.mapValues fun x => (store x).value

/-- A parameter of a model as a file holds it. -/
def storedTensor (store : α → Stored Float32) (m : Model α) (name : ParamName) : Tensor Float32 :=
  (m.parameters.tensor name).map fun x => (store x).value

/-- The tables and layers of a model have the sizes that its layout gives, and the bytes of each can
be counted by a machine word. -/
structure Sized (m : Model α) (shapes : List (ParamName × List Nat)) : Prop where
  shape_eq : ∀ p ∈ shapes, (m.parameters.tensor p.1).shape = p.2
  room : ∀ p ∈ shapes, volume p.2 * 4 < 0x8000000000000000

namespace Sized

variable {m : Model α} {shapes : List (ParamName × List Nat)} {name : ParamName} {shape : List Nat}

lemma mono {more : List (ParamName × List Nat)} (h : Sized m more) (hsub : ∀ p ∈ shapes, p ∈ more) :
    Sized m shapes :=
  ⟨fun p hp => h.shape_eq p (hsub p hp), fun p hp => h.room p (hsub p hp)⟩

/-- The weights of a parameter are read back by their number. -/
lemma decodes (h : Sized m shapes) (store : α → Stored Float32) (hmem : (name, shape) ∈ shapes)
    {count : Int} (hcount : count = volume shape) :
    Decodes [.singles ((m.parameters.tensor name).data.map store)] (Reader.singles count)
      (storedTensor store m name).data := by
  have hshape := h.shape_eq _ hmem
  have hroom := h.room _ hmem
  have hlength : ((m.parameters.tensor name).data.map store).length = volume shape := by
    rw [List.length_map, (m.parameters.tensor name).size_eq, hshape]
  have hread := Decodes.singles (hcount.trans (congrArg Nat.cast hlength.symm))
    (by rw [hlength]; exact hroom)
  rw [List.map_map] at hread
  exact hread

lemma ofList_data (h : Sized m shapes) (store : α → Stored Float32) (hmem : (name, shape) ∈ shapes) :
    Tensor.ofList shape (storedTensor store m name).data = storedTensor store m name := by
  have hshape : (storedTensor store m name).shape = shape := h.shape_eq _ hmem
  subst hshape
  unfold Tensor.ofList Tensor.ofList?
  rw [dif_pos (storedTensor store m name).size_eq, Option.getD_some]

end Sized

section Tables

variable {m : Model α} (store : α → Stored Float32)

/-- A table as the reader finds it in a file. -/
def tableRecord (m : Model α) (name : Int → ParamName) (t : TableSize) :
    TableRecord :=
  ⟨t, (storedTensor store m (name t.column)).data⟩

theorem decodes_embed {t : TableSize} {shapes : List (ParamName × List Nat)} (h : Sized m shapes)
    (hmem : (ParamName.embedding t.column, [t.rows, t.width]) ∈ shapes) :
    Decodes (Model.embedFields store m t.column) TableRecord.readEmbed
      (tableRecord store m .embedding t) := by
  have hshape := h.shape_eq _ hmem
  unfold Model.embedFields TableRecord.readEmbed
  simp only [hshape, List.headD_cons, List.getD_cons_succ, List.getD_cons_zero]
  refine (Decodes.int _).cons <| (Decodes.length _).cons <| (Decodes.length _).cons ?_
  exact (h.decodes store hmem (by simp [volume])).last _

theorem decodes_wide {t : TableSize} {shapes : List (ParamName × List Nat)} (h : Sized m shapes)
    (hwidth : t.width = 1) (hmem : (ParamName.wide t.column, [t.rows, t.width]) ∈ shapes) :
    Decodes (Model.wideFields store m t.column) TableRecord.readWide
      (tableRecord store m .wide t) := by
  have hshape := h.shape_eq _ hmem
  have hrecord : tableRecord store m .wide t =
      ⟨⟨t.column, t.rows, 1⟩, (storedTensor store m (.wide t.column)).data⟩ := by
    unfold tableRecord
    rw [← hwidth]
  unfold Model.wideFields TableRecord.readWide
  simp only [hshape, List.headD_cons]
  rw [hrecord]
  refine (Decodes.int _).cons <| (Decodes.length _).cons ?_
  exact (h.decodes store hmem (by simp [volume, hwidth])).last _

lemma sizes_tableRecord (name : Int → ParamName) {tables : List TableSize}
    (h : (tables.map (·.column)).Nodup) :
    TableRecord.sizes (tables.map (tableRecord store m name)) = tables := by
  unfold TableRecord.sizes
  rw [List.map_map]
  change (tables.map id).foldl TableSize.put [] = tables
  rw [List.map_id, foldl_tablePut h]

/-- The weights of tables are found under their names, from the last one to the first one. -/
lemma weights_tableRecord (name : Int → ParamName) (tables : List TableSize)
    {shapes : List (ParamName × List Nat)} (h : Sized m shapes)
    (hmem : ∀ t ∈ tables, (name t.column, [t.rows, t.width]) ∈ shapes) :
    TableRecord.weights name (tables.map (tableRecord store m name)) =
      (tables.map fun t => (name t.column, storedTensor store m (name t.column))).reverse := by
  unfold TableRecord.weights
  rw [← List.map_reverse, List.map_map, ← List.map_reverse]
  refine List.map_congr_left fun t ht => ?_
  have hdata := h.ofList_data store (hmem t (List.mem_reverse.mp ht))
  exact congrArg (Prod.mk (name t.column)) hdata

lemma distinct_of_nodup {ps : Parameters Float32} (h : ps.names.Nodup) :
    Model.read.distinct ps = ps := by
  induction ps with
  | nil => rfl
  | cons p rest ih =>
    have hnames : p.1 ∉ Parameters.names rest ∧ (Parameters.names rest).Nodup := List.nodup_cons.mp h
    have hrest : Model.read.distinct (p :: rest) =
        p :: (Model.read.distinct rest).filter fun q => q.1 != p.1 := rfl
    rw [hrest, ih hnames.2, List.filter_eq_self.mpr]
    intro q hq
    refine bne_iff_ne.mpr fun heq => hnames.1 ?_
    rw [← heq]
    exact List.mem_map_of_mem hq

end Tables

section Layers

variable {m : Model α} (store : α → Stored Float32)

/-- Layers as the reader finds them in a file. -/
def layerRecords (m : Model α) (position : Nat) : List LayerSize → List LayerRecord
  | [] => []
  | s :: rest =>
    ⟨s.inputs, s.outputs, (storedTensor store m (.deepWeight position)).data,
      (storedTensor store m (.deepBias position)).data, s.activation.name⟩ ::
      layerRecords m (position + 1) rest

lemma map_layerRecords {β : Type} {f : LayerRecord → β} {g : LayerSize → β} (position : Nat)
    (layers : List LayerSize)
    (hfg : ∀ s weight bias, f ⟨s.inputs, s.outputs, weight, bias, s.activation.name⟩ = g s) :
    (layerRecords store m position layers).map f = layers.map g := by
  induction layers generalizing position with
  | nil => rfl
  | cons s rest ih => rw [layerRecords, List.map_cons, List.map_cons, hfg, ih]

theorem decodes_layer {position : Nat} {s : LayerSize} {rest : List LayerSize} {previous : Option Nat}
    (h : Sized m (Layout.layerShapes position (s :: rest)))
    (hprevious : ∀ n, previous = some n → n = s.inputs) :
    Decodes
      [.int s.inputs, .int s.outputs,
        .singles ((m.parameters.tensor (.deepWeight position)).data.map store),
        .singles ((m.parameters.tensor (.deepBias position)).data.map store),
        .text (some s.activation.name)]
      (LayerRecord.read position previous)
      ⟨s.inputs, s.outputs, (storedTensor store m (.deepWeight position)).data,
        (storedTensor store m (.deepBias position)).data, s.activation.name⟩ := by
  have hweight : (ParamName.deepWeight position, [s.outputs, s.inputs]) ∈
      Layout.layerShapes position (s :: rest) := List.mem_cons_self
  have hbias : (ParamName.deepBias position, [s.outputs]) ∈
      Layout.layerShapes position (s :: rest) := List.mem_cons_of_mem _ List.mem_cons_self
  unfold LayerRecord.read
  refine (Decodes.length _).cons <| (Decodes.length _).cons ?_
  have hrest : Decodes
      [.singles ((m.parameters.tensor (.deepWeight position)).data.map store),
        .singles ((m.parameters.tensor (.deepBias position)).data.map store),
        .text (some s.activation.name)]
      (do
        let weight ← Reader.singles (s.outputs * s.inputs : Nat)
        let bias ← Reader.singles s.outputs
        let activation ← Reader.text
        pure (⟨s.inputs, s.outputs, weight, bias, Text.lower activation⟩ : LayerRecord))
      ⟨s.inputs, s.outputs, (storedTensor store m (.deepWeight position)).data,
        (storedTensor store m (.deepBias position)).data, s.activation.name⟩ := by
    refine (h.decodes store hweight (by simp [volume])).cons <|
      (h.decodes store hbias (by simp [volume])).cons ?_
    have htext := (Decodes.text (some s.activation.name)).last fun activation =>
      (⟨s.inputs, s.outputs, (storedTensor store m (.deepWeight position)).data,
        (storedTensor store m (.deepBias position)).data, Text.lower activation⟩ : LayerRecord)
    rwa [Option.getD_some, lower_name] at htext
  cases previous with
  | none => exact hrest
  | some n =>
    have hsame : (n != s.inputs) = false := bne_eq_false_iff_eq.mpr (hprevious n rfl)
    simp only [hsame, Bool.false_eq_true, if_false]
    exact hrest

/-- Layers that follow each other, each with as many inputs as the one before it has outputs. -/
theorem decodes_layers {position inputs : Nat} {hidden : List (Nat × Activation)}
    {previous : Option Nat}
    (h : Sized m (Layout.layerShapes position (Layout.layersFrom inputs hidden)))
    (hprevious : ∀ n, previous = some n → n = inputs) :
    Decodes (Model.layerFields store m position (Layout.layersFrom inputs hidden))
      (LayerRecord.readAll position previous (hidden.length + 1))
      (layerRecords store m position (Layout.layersFrom inputs hidden)) := by
  induction hidden generalizing position inputs previous with
  | nil =>
    have hfirst := decodes_layer store h hprevious
    exact hfirst.append (Decodes.pure _)
  | cons p rest ih =>
    have hfirst := decodes_layer store h hprevious
    have hlater : Sized m (Layout.layerShapes (position + 1) (Layout.layersFrom p.1 rest)) :=
      h.mono fun q hq => List.mem_cons_of_mem _ (List.mem_cons_of_mem _ hq)
    have hrest := ih hlater fun n hn => (Option.some.inj hn).symm
    exact hfirst.append (hrest.last _)

lemma getLast?_layersFrom (inputs : Nat) (hidden : List (Nat × Activation)) :
    ∃ n, (Layout.layersFrom inputs hidden).getLast? = some ⟨n, 1, .linear⟩ := by
  induction hidden generalizing inputs with
  | nil => exact ⟨inputs, rfl⟩
  | cons p rest ih =>
    obtain ⟨n, hn⟩ := ih p.1
    refine ⟨n, ?_⟩
    rw [Layout.layersFrom, List.getLast?_cons, hn, Option.getD_some]

lemma head?_layersFrom (inputs : Nat) (hidden : List (Nat × Activation)) :
    ((Layout.layersFrom inputs hidden).map (·.inputs)).head? = some inputs := by
  cases hidden <;> rfl

lemma dropLast_layersFrom (inputs : Nat) (hidden : List (Nat × Activation)) :
    (Layout.layersFrom inputs hidden).dropLast.map (fun s => (s.outputs, s.activation)) = hidden := by
  induction hidden generalizing inputs with
  | nil => rfl
  | cons p rest ih =>
    have hne : Layout.layersFrom p.1 rest ≠ [] := by
      cases rest <;> exact List.cons_ne_nil _ _
    rw [Layout.layersFrom, List.dropLast_cons_of_ne_nil hne, List.map_cons, ih]

lemma length_layersFrom (inputs : Nat) (hidden : List (Nat × Activation)) :
    (Layout.layersFrom inputs hidden).length = hidden.length + 1 := by
  induction hidden generalizing inputs with
  | nil => rfl
  | cons p rest ih => rw [Layout.layersFrom, List.length_cons, ih, List.length_cons]

/-- The weights of layers under their names. -/
lemma weights_layerRecords (position : Nat) (layers : List LayerSize)
    (h : Sized m (Layout.layerShapes position layers)) :
    LayerRecord.weights position (layerRecords store m position layers) =
      (Layout.layerShapes position layers).map fun p => (p.1, storedTensor store m p.1) := by
  induction layers generalizing position with
  | nil => rfl
  | cons s rest ih =>
    have hweight : (ParamName.deepWeight position, [s.outputs, s.inputs]) ∈
        Layout.layerShapes position (s :: rest) := List.mem_cons_self
    have hbias : (ParamName.deepBias position, [s.outputs]) ∈
        Layout.layerShapes position (s :: rest) := List.mem_cons_of_mem _ List.mem_cons_self
    have hlater : Sized m (Layout.layerShapes (position + 1) rest) :=
      h.mono fun q hq => List.mem_cons_of_mem _ (List.mem_cons_of_mem _ hq)
    rw [layerRecords, LayerRecord.weights, ih _ hlater]
    simp only [h.ofList_data store hweight, h.ofList_data store hbias]
    rfl

end Layers

section Checks

variable {m : Model α} (store : α → Stored Float32)

/-- The layers of a coherent layout pass the checks of the reader. -/
theorem checkLayers_layerRecords {l : Layout} (h : Coherent l) :
    Model.checkLayers l.dense l.embedTables (layerRecords store m 0 l.layers) = .ok () := by
  have hinputs : ((layerRecords store m 0 l.layers).head?.map (·.inputs)).getD 0 = l.inputs := by
    rw [← List.head?_map, map_layerRecords store (g := LayerSize.inputs) 0 _ fun _ _ _ => rfl,
      Layout.layers, head?_layersFrom, Option.getD_some]
  obtain ⟨n, hlast⟩ := getLast?_layersFrom l.inputs l.hidden
  have houtputs : ((layerRecords store m 0 l.layers).getLast?.map (·.outputs)).getD 0 = 1 := by
    rw [← List.getLast?_map, map_layerRecords store (g := LayerSize.outputs) 0 _ fun _ _ _ => rfl,
      Layout.layers, List.getLast?_map, hlast]
    rfl
  have hlinear :
      ((layerRecords store m 0 l.layers).getLast?.map (·.activation)).getD "" = "linear" := by
    rw [← List.getLast?_map,
      map_layerRecords store (g := fun s => s.activation.name) 0 _ fun _ _ _ => rfl,
      Layout.layers, List.getLast?_map, hlast]
    rfl
  have hknown : (((layerRecords store m 0 l.layers).map (·.activation)).filter fun a =>
      (Activation.ofName? a).isNone) = [] := by
    rw [map_layerRecords store (g := fun s => s.activation.name) 0 _ fun _ _ _ => rfl,
      List.filter_eq_nil_iff]
    intro a ha
    obtain ⟨s, -, rfl⟩ := List.mem_map.mp ha
    rw [ofName_name]
    exact Bool.false_ne_true
  unfold Model.checkLayers
  simp only [hinputs, houtputs, hlinear, hknown, ← h.inputs_eq]
  simp [pure, Except.pure]

/-- Tables of one column have as many rows, so the reader does not refuse them. -/
theorem checkSizes_tables {l : Layout} (h : Coherent l) :
    Model.checkSizes l.wide l.embedTables l.wideTables = .ok () := by
  refine forM_eq_ok.mpr fun column _ => ?_
  cases he : l.embedTables.find? (·.column == column) with
  | none => rfl
  | some e =>
    cases hw : l.wideTables.find? (·.column == column) with
    | none => rfl
    | some w =>
      have hefound : (e.column == column) = true :=
        List.find?_some (p := fun t : TableSize => t.column == column) he
      have hwfound : (w.column == column) = true :=
        List.find?_some (p := fun t : TableSize => t.column == column) hw
      have hcolumns : e.column = w.column := (beq_iff_eq.mp hefound).trans (beq_iff_eq.mp hwfound).symm
      have hrows := h.same_rows e (List.mem_of_find?_eq_some he) w (List.mem_of_find?_eq_some hw)
        hcolumns
      simp [hrows]

end Checks

section Whole

variable {m : Model α} (store : α → Stored Float32)

lemma storedWeights_eq (hnodup : m.parameters.names.Nodup) :
    storedWeights store m = m.layout.shapes.map fun p => (p.1, storedTensor store m p.1) := by
  unfold storedWeights
  conv_lhs => rw [← eq_map_tensor hnodup, m.parameters_fit]
  unfold Parameters.mapValues
  rw [List.map_map]
  rfl

omit [Zero α] in
lemma shapes_storedWeights : (storedWeights store m).shapes = m.layout.shapes := by
  rw [← m.parameters_fit]
  unfold storedWeights Parameters.shapes Parameters.mapValues
  rw [List.map_map]
  rfl

lemma ofList_bias (hsized : Sized m m.layout.shapes) :
    Tensor.ofList [1] [(store (m.parameters.tensor .wideBias).head).value] =
      storedTensor store m .wideBias := by
  have hmem : (ParamName.wideBias, [1]) ∈ m.layout.shapes := List.mem_cons_self
  have hone : (m.parameters.tensor .wideBias).data.length = 1 := by
    rw [(m.parameters.tensor .wideBias).size_eq, hsized.shape_eq _ hmem]
    rfl
  obtain ⟨x, hx⟩ := List.length_eq_one_iff.mp hone
  have hhead : (m.parameters.tensor .wideBias).head = x := by
    rw [Tensor.head, hx, List.headD_cons]
  have hstored : (storedTensor store m .wideBias).data = [(store x).value] := by
    change (m.parameters.tensor .wideBias).data.map _ = _
    rw [hx, List.map_singleton]
  rw [hhead, ← hstored, hsized.ofList_data store hmem]

/-- The weights that the reader collects are those that were written. -/
theorem collected_perm (h : Coherent m.layout) (hsized : Sized m m.layout.shapes) :
    ((ParamName.wideBias, Tensor.ofList [1] [(store (m.parameters.tensor .wideBias).head).value]) ::
      Model.read.distinct
        (TableRecord.weights .embedding
            (m.layout.embedTables.map (tableRecord store m .embedding)) ++
          TableRecord.weights .wide (m.layout.wideTables.map (tableRecord store m .wide))) ++
      LayerRecord.weights 0 (layerRecords store m 0 m.layout.layers)).Perm
      (storedWeights store m) := by
  have hnodup := names_nodup (distinct_of_coherent h)
  have hembed := weights_tableRecord store .embedding m.layout.embedTables hsized
    fun t ht => mem_shapes_embed ht
  have hwide := weights_tableRecord store .wide m.layout.wideTables hsized
    fun t ht => mem_shapes_wide ht
  have hlayers := weights_layerRecords store 0 m.layout.layers (hsized.mono fun p hp => mem_shapes_layers hp)
  have hall : storedWeights store m =
      (.wideBias, storedTensor store m .wideBias) ::
        ((m.layout.embedTables.map fun t =>
            (ParamName.embedding t.column, storedTensor store m (.embedding t.column))) ++
          (m.layout.wideTables.map fun t =>
            (ParamName.wide t.column, storedTensor store m (.wide t.column))) ++
          (Layout.layerShapes 0 m.layout.layers).map fun p => (p.1, storedTensor store m p.1)) := by
    rw [storedWeights_eq store hnodup, Layout.shapes]
    simp only [List.map_cons, List.map_append, List.map_map, Function.comp_def]
  have hstored : (storedWeights store m).names.Nodup := by
    rw [← names_eq_shapes, shapes_storedWeights]
    exact shapes_nodup (distinct_of_coherent h)
  rw [ofList_bias store hsized, hembed, hwide, hlayers]
  generalize m.layout.embedTables.map (fun t =>
    (ParamName.embedding t.column, storedTensor store m (.embedding t.column))) = tables at hall ⊢
  generalize m.layout.wideTables.map (fun t =>
    (ParamName.wide t.column, storedTensor store m (.wide t.column))) = wides at hall ⊢
  rw [hall] at hstored ⊢
  have hperm : (tables.reverse ++ wides.reverse).Perm (tables ++ wides) :=
    tables.reverse_perm.append wides.reverse_perm
  have htables : (Parameters.names (tables ++ wides)).Nodup := by
    have hsub : (tables ++ wides).Sublist ((ParamName.wideBias, storedTensor store m .wideBias) ::
        (tables ++ wides ++
          (Layout.layerShapes 0 m.layout.layers).map fun p => (p.1, storedTensor store m p.1))) :=
      (List.sublist_append_left _ _).cons _
    exact hstored.sublist (hsub.map Prod.fst)
  have hgiven : (Parameters.names (tables.reverse ++ wides.reverse)).Nodup :=
    (hperm.map Prod.fst).nodup_iff.mpr htables
  rw [distinct_of_nodup hgiven]
  exact (hperm.append_right _).cons _

/-- A model with its weights as a file holds them and its regularization rounded. -/
def restoredModel (m : Model α) : Model Float32 where
  layout := { m.layout with l2 := restoredL2 (widen (narrow m.layout.l2.value)) }
  parameters := storedWeights store m
  parameters_fit := shapes_storedWeights store

/-- What the reader makes the layout from is found in the tables and layers of the file. -/
lemma spec_of_records (m : Model α) (l2 : Float) :
    rebuiltFrom m.layout l2 =
      { categories := Model.categoriesOf m.layout.wideTables ++
          Model.categoriesOf m.layout.embedTables
        dense := m.layout.dense.map .int
        embed := m.layout.embed.map .int
        embedWidths := m.layout.embed.map fun c => .int
          (((m.layout.embedTables.find? (·.column == c)).map fun t => (t.width : Int)).getD 0)
        wide := m.layout.wide.map .int
        hidden := (layerRecords store m 0 m.layout.layers).dropLast.map fun r => .int r.outputs
        activations :=
          (layerRecords store m 0 m.layout.layers).dropLast.map fun r => .text r.activation
        l2 := .real l2 } := by
  have hhidden : (layerRecords store m 0 m.layout.layers).dropLast.map (fun r =>
      (r.outputs, r.activation)) = m.layout.hidden.map fun p => (p.1, p.2.name) := by
    rw [List.map_dropLast,
      map_layerRecords store (g := fun s => (s.outputs, s.activation.name)) 0 _ fun _ _ _ => rfl,
      ← List.map_dropLast]
    conv_rhs => rw [← dropLast_layersFrom m.layout.inputs m.layout.hidden]
    rw [List.map_map]
    rfl
  have houtputs := congrArg (List.map fun p : Nat × String => Document.int p.1) hhidden
  have hnames := congrArg (List.map fun p : Nat × String => Document.text p.2) hhidden
  rw [List.map_map, List.map_map] at houtputs hnames
  unfold rebuiltFrom
  simp only [Function.comp_def] at houtputs hnames
  rw [houtputs, hnames]

/-- A model is read back from its fields. -/
theorem decodes_model (h : Coherent m.layout)
    (hroom : ∀ p ∈ m.layout.shapes, volume p.2 * 4 < 0x8000000000000000) :
    Decodes (m.fields store) Model.read (restoredModel store m) := by
  have hnodup := names_nodup (distinct_of_coherent h)
  have hsized : Sized m m.layout.shapes :=
    ⟨fun p hp => shape_tensor hnodup m.parameters_fit hp, hroom⟩
  have hembedNodup : (m.layout.embedTables.map (·.column)).Nodup := h.embed_columns ▸ h.embed_nodup
  have hwideNodup : (m.layout.wideTables.map (·.column)).Nodup := h.wide_columns ▸ h.wide_nodup
  have hembed : Decodes (m.layout.embed.flatMap (Model.embedFields store m))
      (Reader.replicate TableRecord.readEmbed m.layout.embed.length)
      (m.layout.embedTables.map (tableRecord store m .embedding)) := by
    rw [← h.embed_columns, List.flatMap_map, List.length_map]
    exact Decodes.replicate fun t ht => decodes_embed store hsized (mem_shapes_embed ht)
  have hwide : Decodes (m.layout.wide.flatMap (Model.wideFields store m))
      (Reader.replicate TableRecord.readWide m.layout.wide.length)
      (m.layout.wideTables.map (tableRecord store m .wide)) := by
    rw [← h.wide_columns, List.flatMap_map, List.length_map]
    exact Decodes.replicate fun t ht =>
      decodes_wide store hsized (h.wide_width t ht) (mem_shapes_wide ht)
  have hlayers := decodes_layers store (hsized.mono fun p hp => mem_shapes_layers hp)
    (fun n (hn : none = some n) => by cases hn)
  unfold Model.fields Model.read
  simp only [List.append_assoc, List.cons_append, List.nil_append]
  refine (Decodes.ints _).cons <| (Decodes.ints _).cons <| (Decodes.ints _).cons <|
    (Decodes.length _).cons <| hembed.append ?_
  simp only [sizes_tableRecord store .embedding hembedNodup, h.embed_columns, bne_self_eq_false,
    Bool.false_eq_true, if_false]
  refine (Decodes.length _).cons <| hwide.append ?_
  simp only [sizes_tableRecord store .wide hwideNodup, h.wide_columns, bne_self_eq_false,
    Bool.false_eq_true, if_false]
  have hcount : (m.layout.layers.length == 0) = false := by
    rw [Layout.layers, length_layersFrom]
    rfl
  refine (Decodes.single _).cons <| (Decodes.length _).cons ?_
  simp only [hcount, Bool.false_eq_true, if_false]
  rw [Layout.layers, length_layersFrom]
  refine hlayers.append <| (Decodes.single _).cons ?_
  have hbias : (store (m.parameters.tensor .wideBias).head).widen.narrow.value =
      (store (m.parameters.tensor .wideBias).head).value := narrow_widen _
  rw [← Layout.layers, checkLayers_layerRecords store h, checkSizes_tables h,
    ← spec_of_records store m (widen m.layout.l2.narrow.value), make_rebuiltFrom h, hbias]
  have hstored : (storedWeights store m).names.Nodup := by
    rw [← names_eq_shapes, shapes_storedWeights]
    exact shapes_nodup (distinct_of_coherent h)
  have hload := load_of_perm (m := Model.blank (restoredModel store m).layout)
    (collected_perm store h hsized) (restoredModel store m).parameters_fit hstored
  exact (congrArg (fun r => Decodes [] (Model.read.liftExcept r) (restoredModel store m)) hload).mpr
    (Decodes.pure _)

end Whole

end WideDeep.Proofs
