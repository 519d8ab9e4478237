import Mathlib.Tactic
import WideDeep.Proofs.AddedTables
import WideDeep.Proofs.TraceShapes

/-!
# Gradients are sums over records

The gradient of the records of two groups is the sum of their gradients, parameter by parameter. No
records have a gradient of zeros. So a worker that adds up the gradients of its batches has the
gradient of its records.
-/

namespace WideDeep.Proofs
open WideDeep.Gradient

section Shapes

variable {l : Layout} {name : ParamName} {shape : List Nat}

/-- The parameters of a layout: the bias of the wide part, tables, and the weights and biases of the
layers. -/
inductive ShapeOf (l : Layout) : ParamName → List Nat → Prop
  | wideBias : ShapeOf l .wideBias [1]
  | embedding {t : TableSize} (mem : t ∈ l.embedTables) :
      ShapeOf l (.embedding t.column) [t.rows, t.width]
  | wide {t : TableSize} (mem : t ∈ l.wideTables) : ShapeOf l (.wide t.column) [t.rows, t.width]
  | deepWeight {i : Nat} {s : LayerSize} (found : l.layers[i]? = some s) :
      ShapeOf l (.deepWeight i) [s.outputs, s.inputs]
  | deepBias {i : Nat} {s : LayerSize} (found : l.layers[i]? = some s) :
      ShapeOf l (.deepBias i) [s.outputs]

lemma mem_layerShapes_iff {position : Nat} {layers : List LayerSize} {p : ParamName × List Nat}
    (h : p ∈ Layout.layerShapes position layers) : ∃ i s, layers[i]? = some s ∧
      (p = (.deepWeight (position + i), [s.outputs, s.inputs]) ∨
        p = (.deepBias (position + i), [s.outputs])) := by
  induction layers generalizing position with
  | nil => cases h
  | cons s rest ih =>
    rw [Layout.layerShapes, List.mem_cons, List.mem_cons] at h
    rcases h with rfl | rfl | hrest
    · exact ⟨0, s, rfl, Or.inl rfl⟩
    · exact ⟨0, s, rfl, Or.inr rfl⟩
    · obtain ⟨i, found, hfound, hp⟩ := ih hrest
      refine ⟨i + 1, found, hfound, ?_⟩
      rwa [Nat.add_assoc, Nat.add_comm 1] at hp

theorem shapeOf_of_mem (h : (name, shape) ∈ l.shapes) : ShapeOf l name shape := by
  unfold Layout.shapes at h
  rw [List.mem_cons, List.mem_append, List.mem_append] at h
  rcases h with heq | (htable | htable) | hlayer
  · cases heq
    exact ShapeOf.wideBias
  · obtain ⟨t, ht, heq⟩ := List.mem_map.mp htable
    cases heq
    exact ShapeOf.embedding ht
  · obtain ⟨t, ht, heq⟩ := List.mem_map.mp htable
    cases heq
    exact ShapeOf.wide ht
  · obtain ⟨i, s, hs, heq | heq⟩ := mem_layerShapes_iff hlayer
    · rw [Nat.zero_add] at heq
      cases heq
      exact ShapeOf.deepWeight hs
    · rw [Nat.zero_add] at heq
      cases heq
      exact ShapeOf.deepBias hs

end Shapes

section Parameters

variable {α : Type} [Scalar α] {l : Layout} {name : ParamName} {shape : List Nat}
  {xs ys : List (Sample α × Sensitivity α)}

/-- The numbers of the gradient of one parameter. -/
def gradientOf (l : Layout) (traced : List (Sample α × Sensitivity α)) (name : ParamName)
    (shape : List Nat) : List α :=
  Model.gradientData l traced name (shape.headD 0) (shape.getD 1 1)

omit [Scalar α] in
lemma traceFits_at {p : Sample α × Sensitivity α} (h : Traced l p) {i : Nat} {s : LayerSize}
    (hs : l.layers[i]? = some s) : TraceFits s (Model.layerTrace i p.2) := by
  obtain ⟨hlt, hget⟩ := List.getElem?_eq_some_iff.mp hs
  obtain ⟨hlength, hfits⟩ := List.forall₂_iff_get.mp h.layers
  have hlt' : i < p.2.layers.length := hlength ▸ hlt
  have hfit := hfits i hlt hlt'
  rw [List.get_eq_getElem, List.get_eq_getElem, hget] at hfit
  unfold Model.layerTrace
  rwa [List.getD_eq_getElem?_getD, List.getElem?_eq_getElem hlt', Option.getD_some]

/-- What one record adds to the weight of a layer. -/
def weightTable (i : Nat) (p : Sample α × Sensitivity α) : List (List α) :=
  (Model.layerTrace i p.2).delta.map (scale · (Model.layerTrace i p.2).input)

lemma isTable_weight {p : Sample α × Sensitivity α} (h : Traced l p) {i : Nat} {s : LayerSize}
    (hs : l.layers[i]? = some s) : IsTable s.outputs s.inputs (weightTable i p) where
  rows := (List.length_map _).trans (traceFits_at h hs).delta
  width := fun r hr => by
    obtain ⟨c, -, rfl⟩ := List.mem_map.mp hr
    exact (List.length_map _).trans (traceFits_at h hs).input

lemma isTable_weights (h : ∀ p ∈ xs, Traced l p) {i : Nat} {s : LayerSize}
    (hs : l.layers[i]? = some s) :
    IsTable s.outputs s.inputs ((xs.map (weightTable i)).foldl (List.zipWith add)
      (List.replicate s.outputs (List.replicate s.inputs 0))) :=
  IsTable.foldl (List.forall_mem_map.mpr fun p hp => isTable_weight (h p hp) hs)
    (isTable_zeros s.outputs s.inputs)

omit [Scalar α] in
lemma width_of_hits {width : Nat} {hits : Sample α × Sensitivity α → List (Nat × List α)}
    (h : ∀ p ∈ xs, ∀ hit ∈ hits p, hit.2.length = width) :
    ∀ hit ∈ xs.flatMap hits, hit.2.length = width := by
  intro hit hmem
  obtain ⟨p, hp, hhit⟩ := List.mem_flatMap.mp hmem
  exact h p hp hit hhit

omit [Scalar α] in
lemma width_of_wideHits (hl : Ready l) {t : TableSize} (ht : t ∈ l.wideTables)
    (p : Sample α × Sensitivity α) :
    ∀ hit ∈ Model.wideHits l t.column t.rows p.1 p.2, hit.2.length = t.width := by
  intro hit hmem
  obtain ⟨q, -, rfl⟩ := List.mem_map.mp hmem
  exact (hl.wide_width t ht).symm

omit [Scalar α] in
/-- What falls on the rows of the tables has the widths of the tables. -/
lemma widths_of_hits (hl : Ready l) (hx : ∀ p ∈ xs, Traced l p) {t : TableSize} :
    (t ∈ l.embedTables → ∀ hit ∈ xs.flatMap fun p => Model.embedHits l t.column t.rows p.1 p.2,
      hit.2.length = t.width) ∧
    (t ∈ l.wideTables → ∀ hit ∈ xs.flatMap fun p => Model.wideHits l t.column t.rows p.1 p.2,
      hit.2.length = t.width) :=
  ⟨fun ht => width_of_hits fun p hp => width_of_embedHits hl ht (hx p hp),
    fun ht => width_of_hits fun p _ => width_of_wideHits hl ht p⟩

lemma volume_matrix (rows width : Nat) : volume [rows, width] = rows * width := by
  rw [volume, volume, volume, Nat.mul_one]

lemma volume_vector (n : Nat) : volume [n] = n := by
  rw [volume, volume, Nat.mul_one]

/-- The gradient of a parameter fills its shape. -/
theorem length_gradientOf (hl : Ready l) (h : ShapeOf l name shape) (hx : ∀ p ∈ xs, Traced l p) :
    (gradientOf l xs name shape).length = volume shape := by
  cases h with
  | wideBias => rfl
  | embedding mem =>
    rw [volume_matrix]
    exact (isTable_scatter ((widths_of_hits hl hx).1 mem)).length_flatten
  | wide mem =>
    rw [volume_matrix]
    exact (isTable_scatter ((widths_of_hits hl hx).2 mem)).length_flatten
  | deepWeight found =>
    rw [volume_matrix]
    exact (isTable_weights hx found).length_flatten
  | deepBias found =>
    rw [volume_vector]
    exact length_foldl_add (List.forall_mem_map.mpr fun p hp => (traceFits_at (hx p hp) found).delta)
      List.length_replicate

variable [ExactSum α]

/-- The gradient of a parameter is the sum of those of two groups of records. -/
theorem gradientOf_append (hl : Ready l) (h : ShapeOf l name shape) (hx : ∀ p ∈ xs, Traced l p)
    (hy : ∀ p ∈ ys, Traced l p) :
    gradientOf l (xs ++ ys) name shape =
      add (gradientOf l xs name shape) (gradientOf l ys name shape) := by
  have hmap : ∀ {β : Type} (f : Sample α × Sensitivity α → β),
      (xs ++ ys).map f = xs.map f ++ ys.map f := fun f => List.map_append
  cases h with
  | wideBias =>
    change [total ((xs ++ ys).map (·.2.slope))] =
      [total (xs.map (·.2.slope)) + total (ys.map (·.2.slope))]
    rw [hmap, total_append]
  | @embedding t mem =>
    have hx' := (widths_of_hits hl hx).1 mem
    have hy' := (widths_of_hits hl hy).1 mem
    change (scatter t.rows t.width
      ((xs ++ ys).flatMap fun p => Model.embedHits l t.column t.rows p.1 p.2)).flatten = _
    rw [List.flatMap_append, scatter_append hx' hy',
      (isTable_scatter hx').flatten_add (isTable_scatter hy')]
    rfl
  | @wide t mem =>
    have hx' := (widths_of_hits hl hx).2 mem
    have hy' := (widths_of_hits hl hy).2 mem
    change (scatter t.rows t.width
      ((xs ++ ys).flatMap fun p => Model.wideHits l t.column t.rows p.1 p.2)).flatten = _
    rw [List.flatMap_append, scatter_append hx' hy',
      (isTable_scatter hx').flatten_add (isTable_scatter hy')]
    rfl
  | @deepWeight i s found =>
    change (((xs ++ ys).map (weightTable i)).foldl (List.zipWith add)
      (List.replicate s.outputs (List.replicate s.inputs 0))).flatten = _
    rw [hmap, (adds_tables s.outputs s.inputs).foldl_append,
      (isTable_weights hx found).flatten_add (isTable_weights hy found)]
    rfl
  | @deepBias i s found =>
    change ((xs ++ ys).map fun p => (Model.layerTrace i p.2).delta).foldl add
      (List.replicate s.outputs 0) = _
    rw [hmap, (adds_rows s.outputs).foldl_append]
    rfl

omit [ExactSum α] in
/-- Without records the gradient of a parameter is zero everywhere. -/
theorem gradientOf_nil (l : Layout) (h : ShapeOf l name shape) :
    gradientOf l ([] : List (Sample α × Sensitivity α)) name shape =
      List.replicate (volume shape) 0 := by
  cases h with
  | wideBias => rfl
  | embedding mem =>
    rw [volume_matrix]
    exact flatten_zeros _ _
  | wide mem =>
    rw [volume_matrix]
    exact flatten_zeros _ _
  | deepWeight found =>
    rw [volume_matrix]
    exact flatten_zeros _ _
  | deepBias found =>
    rw [volume_vector]
    rfl

end Parameters

section Tensors

variable {α : Type} {shape : List Nat} {xs ys : List α}

lemma combine_ofList [Scalar α] (hx : xs.length = volume shape) (hy : ys.length = volume shape) :
    (Tensor.ofList shape xs).combine (· + ·) (Tensor.ofList shape ys) =
      Tensor.ofList shape (add xs ys) := by
  rw [ofList_eq hx, ofList_eq hy, ofList_eq ((length_add (hx.trans hy.symm)).trans hx),
    Tensor.combine, dif_pos rfl]
  rfl

/-- Tensors under the same distinct names are combined name by name. -/
lemma combine_map {β : Type} [Zero β] {entries : List (ParamName × List Nat)}
    (h : (entries.map Prod.fst).Nodup) (op : α → β → α)
    (f : ParamName × List Nat → Tensor α) (g : ParamName × List Nat → Tensor β) :
    Parameters.combine op (entries.map fun e => (e.1, f e)) (entries.map fun e => (e.1, g e)) =
      entries.map fun e => (e.1, (f e).combine op (g e)) := by
  unfold Parameters.combine
  rw [List.map_map]
  refine List.map_congr_left fun e he => ?_
  have hnames : (Parameters.names (entries.map fun e => (e.1, g e))).Nodup := by
    unfold Parameters.names
    rwa [List.map_map]
  have hfound := tensor_of_mem hnames (List.mem_map_of_mem (f := fun e => (e.1, g e)) he)
  change (e.1, (f e).combine op (Parameters.tensor _ e.1)) = _
  rw [hfound]

end Tensors

section Gradients

variable {α : Type} [Scalar α] {m : Model α} {xs ys : List (Sample α)}

/-- The derivatives of all records have the sizes of the layout. -/
def AllTraced (m : Model α) (xs : List (Sample α)) : Prop :=
  ∀ s ∈ xs, Traced m.layout (s, m.sensitivity s)

/-- The gradient of one parameter. -/
def gradientTensor (m : Model α) (xs : List (Sample α)) (e : ParamName × List Nat) : Tensor α :=
  Tensor.ofList e.2 (gradientOf m.layout (xs.map fun s => (s, m.sensitivity s)) e.1 e.2)

lemma shape_gradientTensor (m : Model α) (xs : List (Sample α)) (e : ParamName × List Nat) :
    (gradientTensor m xs e).shape = e.2 := by
  unfold gradientTensor Tensor.ofList Tensor.ofList?
  split <;> rfl

lemma gradient_eq (m : Model α) (xs : List (Sample α)) :
    m.gradient xs = m.layout.shapes.map fun e => (e.1, gradientTensor m xs e) := rfl

lemma forall_traced (h : AllTraced m xs) :
    ∀ p ∈ xs.map fun s => (s, m.sensitivity s), Traced m.layout p :=
  List.forall_mem_map.mpr h

/-- No records have a gradient of zeros. -/
theorem gradient_nil (m : Model α) :
    m.gradient [] = m.layout.shapes.map fun e => (e.1, Tensor.zeros e.2) := by
  refine List.map_congr_left fun e he => congrArg (Prod.mk e.1) ?_
  change Tensor.ofList e.2 (gradientOf m.layout [] e.1 e.2) = _
  rw [gradientOf_nil m.layout (shapeOf_of_mem he), ofList_eq List.length_replicate]
  rfl

variable [ExactSum α]

/-- The gradient of the records of two groups is the sum of their gradients. -/
theorem gradient_append (hl : Ready m.layout) (hx : AllTraced m xs) (hy : AllTraced m ys) :
    m.gradient (xs ++ ys) = (m.gradient xs).combine (· + ·) (m.gradient ys) := by
  rw [gradient_eq, gradient_eq, gradient_eq, combine_map (shapes_nodup hl.distinct)]
  refine List.map_congr_left fun e he => congrArg (Prod.mk e.1) ?_
  have hshape := shapeOf_of_mem he
  unfold gradientTensor
  rw [combine_ofList (length_gradientOf hl hshape (forall_traced hx))
    (length_gradientOf hl hshape (forall_traced hy)), List.map_append,
    gradientOf_append hl hshape (forall_traced hx) (forall_traced hy)]

/-- Gradients that are added up batch by batch are the gradient of all the records. -/
theorem sumGradients_eq (hl : Ready m.layout) {batches : List (List (Sample α))}
    (h : AllTraced m batches.flatten) : Worker.sumGradients m batches = m.gradient batches.flatten := by
  -- what has been added up so far is the gradient of the records before
  have hsum : ∀ seen, AllTraced m (seen ++ batches.flatten) →
      batches.foldl (fun sum b => sum.combine (· + ·) (m.gradient b)) (m.gradient seen) =
        m.gradient (seen ++ batches.flatten) := by
    clear h
    induction batches with
    | nil =>
      intro seen _
      rw [List.flatten_nil, List.append_nil]
      rfl
    | cons b rest ih =>
      intro seen h
      rw [List.flatten_cons, ← List.append_assoc] at h ⊢
      have hseen := fun s hs => h s (List.mem_append_left _ hs)
      rw [List.foldl_cons, ← gradient_append hl (fun s hs => hseen s (List.mem_append_left _ hs))
        (fun s hs => hseen s (List.mem_append_right _ hs))]
      exact ih (seen ++ b) h
  have hzero := hsum []
  rw [List.nil_append, gradient_nil] at hzero
  exact hzero h

end Gradients

end WideDeep.Proofs
