import Mathlib.Tactic
import WideDeep.Proofs.AddedTables
import WideDeep.Proofs.PlannedLayouts

/-!
# Shapes of traces

What is carried back through the layers has the sizes of the layout: each layer gets as many
derivatives as it has outputs, and the inputs of the deep part as many as there are of them.
-/

namespace WideDeep.Proofs
open WideDeep.Gradient

variable {α : Type} [Scalar α]

section Layers

/-- What a layer of some size saw of a record. -/
structure TraceFits (s : LayerSize) (t : LayerTrace α) : Prop where
  input : t.input.length = s.inputs
  delta : t.delta.length = s.outputs

lemma length_foldl_add {n : Nat} {rows : List (List α)} (h : ∀ r ∈ rows, r.length = n)
    {start : List α} (hstart : start.length = n) : (rows.foldl add start).length = n := by
  induction rows generalizing start with
  | nil => exact hstart
  | cons r rest ih =>
    obtain ⟨hr, hrest⟩ := List.forall_mem_cons.mp h
    exact ih hrest ((length_add (hstart.trans hr.symm)).trans hstart)

lemma length_pullBack {inputs outputs : Nat} {l : Layer α} (h : LayerFits inputs outputs l)
    (delta : List α) : (pullBack l inputs delta).length = inputs := by
  refine length_foldl_add (fun r hr => ?_) List.length_replicate
  rw [← List.map_uncurry_zip_eq_zipWith] at hr
  obtain ⟨p, hp, rfl⟩ := List.mem_map.mp hr
  exact (List.length_map _).trans (h.rows p.2 (List.of_mem_zip hp).2)

lemma length_linear {inputs outputs : Nat} {l : Layer α} (h : LayerFits inputs outputs l)
    (x : List α) : (l.linear x).length = outputs := by
  unfold Layer.linear
  rw [List.length_zipWith, h.weight, h.bias, min_self]

/-- One layer is traced with its sizes if what is behind it gives a derivative for each output. -/
lemma traceFits_layer {s : LayerSize} {l : Layer α} (h : LayerFits s.inputs s.outputs l) {x g : List α}
    (hx : x.length = s.inputs) (hg : g.length = s.outputs) :
    TraceFits s (⟨x, List.zipWith (fun p g => l.activation.back p.1 p.2 g)
      ((l.linear x).zip ((l.linear x).map l.activation.apply)) g⟩ : LayerTrace α) where
  input := hx
  delta := by
    rw [List.length_zipWith, List.length_zip, List.length_map, length_linear h, hg, min_self,
      min_self]

/-- Derivatives are carried back through the layers of a layout with the sizes of the layers. -/
theorem backward_layersFrom (m : Model α) (position inputs : Nat) (hidden : List (Nat × Activation))
    (h : ∀ p ∈ Layout.layerShapes position (Layout.layersFrom inputs hidden),
      (m.parameters.tensor p.1).shape = p.2) {x : List α} (hx : x.length = inputs) (d : α) :
    List.Forall₂ TraceFits (Layout.layersFrom inputs hidden)
        (backward (m.layersFrom position (Layout.layersFrom inputs hidden)) x d).1 ∧
      (backward (m.layersFrom position (Layout.layersFrom inputs hidden)) x d).2.length =
        inputs := by
  induction hidden generalizing position inputs x with
  | nil =>
    have hfirst := layerFits_first m position _ _ h
    exact ⟨List.Forall₂.cons (traceFits_layer hfirst hx rfl) List.Forall₂.nil,
      hx ▸ length_pullBack (hx.symm ▸ hfirst) _⟩
  | cons p rest ih =>
    have hfirst := layerFits_first m position _ _ h
    obtain ⟨htraces, hlength⟩ := ih (position + 1) p.1
      (fun q hq => h q (List.mem_cons_of_mem _ (List.mem_cons_of_mem _ hq)))
      (length_apply hfirst x)
    exact ⟨List.Forall₂.cons (traceFits_layer hfirst hx hlength) htraces,
      hx ▸ length_pullBack (hx.symm ▸ hfirst) _⟩

end Layers

section Columns

variable {m : Model α} {l : Layout} {t : TableSize}

omit [Scalar α] in
/-- The parameters of a model have the shapes of its layout. -/
lemma shape_of_ready [Zero α] (h : Ready m.layout) :
    ∀ p ∈ m.layout.shapes, (m.parameters.tensor p.1).shape = p.2 := fun _ hp =>
  shape_tensor (names_nodup h.distinct) m.parameters_fit hp

/-- The width of the embeddings of a column; zero if it has none. -/
def columnWidth (l : Layout) (column : Int) : Nat :=
  ((l.embedTables.find? (·.column == column)).map (·.width)).getD 0

lemma columnWidth_table (h : Ready l) (ht : t ∈ l.embedTables) : columnWidth l t.column = t.width := by
  unfold columnWidth
  rw [find?_table h.distinct.embed ht]
  rfl

lemma embedWidth_eq (l : Layout) : Model.embedWidth l = (l.embed.map (columnWidth l)).sum :=
  List.sum_eq_foldl_nat.symm

/-- Whatever index is looked up, the embedding has the width of its column. -/
lemma length_lookup (h : Ready m.layout) {n : Int} (hn : n ∈ m.layout.embed) (index : Int) :
    (Model.lookup (m.embedRows n) index).length = columnWidth m.layout n := by
  obtain ⟨t, ht, rfl⟩ := h.embed n hn
  have hshape := shape_of_ready h _ (mem_shapes_embed ht)
  rw [columnWidth_table h ht]
  refine length_of_mem_rows hshape _ (lookup_mem ?_ index)
  exact (length_rows hshape).symm ▸ h.filled t (List.mem_append_left _ ht)

/-- The embeddings of a record have the widths of their columns. -/
lemma lengths_of_lookups (h : Ready m.layout) {indices : List Int}
    (hindices : indices.length = m.layout.embed.length) :
    (m.layout.embed.zip indices).map (fun p => (Model.lookup (m.embedRows p.1) p.2).length) =
      m.layout.embed.map (columnWidth m.layout) := by
  calc (m.layout.embed.zip indices).map (fun p => (Model.lookup (m.embedRows p.1) p.2).length)
      = (m.layout.embed.zip indices).map (columnWidth m.layout ∘ Prod.fst) :=
        List.map_congr_left fun p hp => length_lookup h (List.of_mem_zip hp).1 p.2
    _ = ((m.layout.embed.zip indices).map Prod.fst).map (columnWidth m.layout) := List.map_map.symm
    _ = m.layout.embed.map (columnWidth m.layout) := by
        rw [List.map_fst_zip hindices.ge]

/-- The deep part of a record has as many inputs as the layout plans. -/
theorem length_deepInputs (h : Ready m.layout) {r : Inputs α}
    (hdense : r.dense.length = m.layout.dense.length)
    (hembed : r.embed.length = m.layout.embed.length) :
    (m.deepInputs r).length = m.layout.inputs := by
  unfold Model.deepInputs
  rw [List.length_append, hdense, List.length_flatMap, lengths_of_lookups h hembed, h.inputs,
    embedWidth_eq]

omit [Scalar α] in
/-- Numbers that are cut into segments give each segment its length, as long as they last. -/
lemma segments_lengths {widths : List Nat} {xs : List α} (h : widths.sum ≤ xs.length) :
    List.Forall₂ (fun n piece => piece.length = n) widths (segments widths xs) := by
  induction widths generalizing xs with
  | nil => exact List.Forall₂.nil
  | cons n rest ih =>
    rw [List.sum_cons] at h
    refine List.Forall₂.cons ?_ (ih ?_)
    · rw [List.length_take]
      omega
    · rw [List.length_drop]
      omega

end Columns

section Traces

variable {m : Model α} {l : Layout} {t : TableSize}

/-- A record with derivatives of the sizes of a layout. -/
structure Traced (l : Layout) (p : Sample α × Sensitivity α) : Prop where
  dense : p.1.inputs.dense.length = l.dense.length
  inputs : p.2.inputs.length = l.inputs
  layers : List.Forall₂ TraceFits l.layers p.2.layers

/-- The derivatives of a normalized record have the sizes of the layout. -/
theorem traced_of_ready (h : Ready m.layout) {s : Sample α}
    (hdense : s.inputs.dense.length = m.layout.dense.length)
    (hembed : s.inputs.embed.length = m.layout.embed.length) :
    Traced m.layout (s, m.sensitivity s) := by
  obtain ⟨hlayers, hinputs⟩ := backward_layersFrom m 0 m.layout.inputs m.layout.hidden
    (fun p hp => shape_of_ready h p (mem_shapes_layers hp)) (length_deepInputs h hdense hembed)
    (Loss.slope (m.logit s.inputs) s.target s.weight)
  exact ⟨hdense, hinputs, hlayers⟩

omit [Scalar α] in
/-- What falls on an embedding has its width. -/
lemma width_of_embedHits (h : Ready l) (ht : t ∈ l.embedTables) {p : Sample α × Sensitivity α}
    (hp : Traced l p) : ∀ hit ∈ Model.embedHits l t.column t.rows p.1 p.2, hit.2.length = t.width := by
  have hpieces : List.Forall₂ (fun n piece => piece.length = columnWidth l n) l.embed
      (segments (l.embed.map (columnWidth l)) (p.2.inputs.drop p.1.inputs.dense.length)) := by
    refine List.forall₂_map_left_iff.mp (segments_lengths ?_)
    rw [List.length_drop, hp.inputs, hp.dense, h.inputs, embedWidth_eq]
    omega
  intro hit hmem
  change hit ∈ ((l.embed.zip (p.1.inputs.embed.zip (segments (l.embed.map (columnWidth l))
    (p.2.inputs.drop p.1.inputs.dense.length)))).filter (·.1 == t.column)).map fun q =>
      (resolve t.rows q.2.1, q.2.2) at hmem
  obtain ⟨q, hq, rfl⟩ := List.mem_map.mp hmem
  obtain ⟨hzip, hcolumn⟩ := List.mem_filter.mp hq
  obtain ⟨i, hi, rfl⟩ := List.mem_iff_getElem.mp hzip
  rw [List.length_zip, List.length_zip] at hi
  rw [List.getElem_zip, List.getElem_zip] at hcolumn ⊢
  have hsame : l.embed[i] = t.column := beq_iff_eq.mp hcolumn
  have hwidth := (List.forall₂_iff_get.mp hpieces).2 i (by omega) (by omega)
  rw [List.get_eq_getElem, List.get_eq_getElem, hsame, columnWidth_table h ht] at hwidth
  exact hwidth

end Traces

end WideDeep.Proofs
