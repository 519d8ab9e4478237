import Mathlib.Tactic
import WideDeep.Model.Basic
import WideDeep.Proofs.LayoutTables

/-!
# Parameters by name

The names of the parameters of a model are distinct, so a parameter is found under its name, and the
order in which parameters are given does not matter when they are loaded.
-/

namespace WideDeep.Proofs

variable {α : Type}

/-- Numbers are kept under a shape that they fill. -/
lemma ofList_eq [Zero α] {shape : List Nat} {xs : List α} (h : xs.length = volume shape) :
    Tensor.ofList shape xs = ⟨shape, xs, h⟩ := by
  unfold Tensor.ofList Tensor.ofList?
  rw [dif_pos h, Option.getD_some]

lemma names_eq_shapes (ps : Parameters α) : ps.shapes.map Prod.fst = ps.names := by
  unfold Parameters.shapes Parameters.names
  rw [List.map_map]
  rfl

lemma names_congr {β : Type} {ps : Parameters α} {qs : Parameters β} (h : ps.shapes = qs.shapes) :
    ps.names = qs.names := by
  rw [← names_eq_shapes, h, names_eq_shapes]

lemma nodup_shapes {ps : Parameters α} (h : ps.names.Nodup) : ps.shapes.Nodup := by
  rw [← names_eq_shapes] at h
  exact h.of_map

lemma shapes_mapValues {β : Type} (f : α → β) (ps : Parameters α) :
    (ps.mapValues f).shapes = ps.shapes := by
  unfold Parameters.mapValues Parameters.shapes
  rw [List.map_map]
  rfl

section Lookups

variable [Zero α] {ps qs : Parameters α} {layout : List (ParamName × List Nat)}

lemma tensor_of_mem (hnodup : ps.names.Nodup) {name : ParamName} {t : Tensor α}
    (hmem : (name, t) ∈ ps) : ps.tensor name = t := by
  unfold Parameters.tensor Parameters.get?
  rw [lookup_of_mem hnodup hmem, Option.getD_some]

/-- Parameters are made up again from their names and what is found under them. -/
theorem eq_map_tensor (hnodup : ps.names.Nodup) :
    ps.shapes.map (fun p => (p.1, ps.tensor p.1)) = ps := by
  unfold Parameters.shapes
  rw [List.map_map]
  refine (List.map_congr_left fun p hp => ?_).trans (List.map_id _)
  change (p.1, ps.tensor p.1) = p
  rw [tensor_of_mem hnodup (t := p.2) hp]

/-- What is found under a name of the layout has the shape that the layout gives. -/
lemma shape_tensor (hnodup : ps.names.Nodup) (hshapes : ps.shapes = layout) {name : ParamName}
    {shape : List Nat} (hmem : (name, shape) ∈ layout) : (ps.tensor name).shape = shape := by
  subst hshapes
  obtain ⟨p, hp, heq⟩ := List.mem_map.mp hmem
  cases heq
  rw [tensor_of_mem hnodup (t := p.2) hp]

lemma missing_eq_nil {wanted given : List ParamName} :
    Parameters.missing wanted given = [] ↔ ∀ n ∈ wanted, n ∈ given := by
  unfold Parameters.missing Text.sorted
  rw [← List.perm_nil, (List.mergeSort_perm _ _).congr_left, List.perm_nil, List.map_eq_nil_iff,
    List.filter_eq_nil_iff]
  simp

omit [Zero α] in
lemma get?_of_mem_names {name : ParamName} (h : name ∈ ps.names) : ∃ t, ps.get? name = some t := by
  obtain ⟨p, hp, rfl⟩ := List.mem_map.mp h
  have hsome : (ps.lookup p.1).isSome = true :=
    List.lookup_isSome_iff.mpr ⟨p, hp, beq_self_eq_true _⟩
  exact Option.isSome_iff_exists.mp hsome

lemma get?_of_mem {name : ParamName} (h : name ∈ ps.names) : ps.get? name = some (ps.tensor name) := by
  obtain ⟨t, ht⟩ := get?_of_mem_names h
  unfold Parameters.tensor
  rw [ht, Option.getD_some]

omit [Zero α] in
lemma get?_of_not_mem {name : ParamName} (h : name ∉ ps.names) : ps.get? name = none := by
  refine List.lookup_eq_none_iff.mpr fun p hmem => ?_
  rw [bne_iff_ne]
  rintro rfl
  exact h (List.mem_map_of_mem hmem)

lemma mem_tensor {name : ParamName} (h : name ∈ ps.names) : (name, ps.tensor name) ∈ ps := by
  have hget := get?_of_mem h
  generalize ps.tensor name = t at hget ⊢
  obtain ⟨before, after, hsplit, -⟩ := List.lookup_eq_some_iff.mp hget
  rw [hsplit]
  exact List.mem_append_right before List.mem_cons_self

/-- When parameters have the names and shapes of a layout. -/
theorem check_eq_ok :
    Parameters.check layout ps = .ok () ↔
      (∀ n ∈ layout.map Prod.fst, n ∈ ps.names) ∧ (∀ n ∈ ps.names, n ∈ layout.map Prod.fst) ∧
        ∀ p ∈ layout, (ps.tensor p.1).shape = p.2 := by
  unfold Parameters.check
  dsimp only
  by_cases hnames : (∀ n ∈ layout.map Prod.fst, n ∈ ps.names) ∧
      (∀ n ∈ ps.names, n ∈ layout.map Prod.fst)
  · have hlacking := missing_eq_nil.mpr hnames.1
    have hunexpected := missing_eq_nil.mpr hnames.2
    have hfound : ∀ p ∈ layout, ps.get? p.1 = some (ps.tensor p.1) := fun p hp =>
      get?_of_mem (hnames.1 p.1 (List.mem_map_of_mem hp))
    rw [hlacking, hunexpected, if_neg (by simp), forM_eq_ok]
    constructor
    · intro h
      refine ⟨hnames.1, hnames.2, fun p hp => ?_⟩
      have hstep := h p hp
      simp only [hfound p hp] at hstep
      by_contra hshape
      rw [if_neg hshape] at hstep
      cases hstep
    · rintro ⟨-, -, hshapes⟩ p hp
      simp only [hfound p hp, if_pos (hshapes p hp)]
  · have hrefused : (!(Parameters.missing (layout.map Prod.fst) ps.names).isEmpty ||
        !(Parameters.missing ps.names (layout.map Prod.fst)).isEmpty) = true := by
      by_contra hnone
      simp only [Bool.or_eq_true, Bool.not_eq_true', List.isEmpty_eq_false_iff, not_or,
        not_not] at hnone
      exact hnames ⟨missing_eq_nil.mp hnone.1, missing_eq_nil.mp hnone.2⟩
    rw [if_pos hrefused]
    constructor
    · intro h
      cases h
    · rintro ⟨hwanted, hgiven, -⟩
      exact absurd ⟨hwanted, hgiven⟩ hnames

/-- The order of parameters with distinct names does not matter when one is looked up. -/
lemma tensor_of_perm (hq : qs.names.Nodup) (h : ps.Perm qs) (name : ParamName) :
    ps.tensor name = qs.tensor name := by
  have hp : ps.names.Nodup := (h.map Prod.fst).nodup_iff.mpr hq
  by_cases hname : name ∈ ps.names
  · exact (tensor_of_mem hq (h.mem_iff.mp (mem_tensor hname))).symm
  · have hother : name ∉ qs.names := fun hmem => hname ((h.map Prod.fst).mem_iff.mpr hmem)
    unfold Parameters.tensor
    rw [get?_of_not_mem hname, get?_of_not_mem hother]

/-- Parameters of the names and shapes of a layout pass its check in any order. -/
theorem check_of_perm (hperm : ps.Perm qs) (hshapes : qs.shapes = layout) (hnodup : qs.names.Nodup) :
    Parameters.check layout ps = .ok () := by
  have hnames : layout.map Prod.fst = qs.names := by rw [← hshapes, names_eq_shapes]
  have hsame : ∀ n, n ∈ ps.names ↔ n ∈ qs.names := fun n => (hperm.map Prod.fst).mem_iff
  rw [check_eq_ok, hnames]
  refine ⟨fun n hn => (hsame n).mpr hn, fun n hn => (hsame n).mp hn, fun p hp => ?_⟩
  rw [tensor_of_perm hnodup hperm]
  exact shape_tensor hnodup hshapes hp

/-- Parameters of the shapes of a layout are laid out as they are. -/
lemma fit_of_shapes (h : ∀ p ∈ layout, (ps.tensor p.1).shape = p.2) :
    Parameters.fit layout ps = layout.map fun p => (p.1, ps.tensor p.1) := by
  refine List.map_congr_left fun p hp => ?_
  rw [Tensor.withShape, if_pos (h p hp)]

lemma fit_of_perm (hperm : ps.Perm qs) (hshapes : qs.shapes = layout) (hnodup : qs.names.Nodup) :
    Parameters.fit layout ps = qs := by
  have htensor := tensor_of_perm hnodup hperm
  subst hshapes
  have hfits : ∀ p ∈ qs.shapes, (ps.tensor p.1).shape = p.2 := fun p hp => by
    rw [htensor]
    exact shape_tensor hnodup rfl hp
  rw [fit_of_shapes hfits]
  simp only [htensor]
  exact eq_map_tensor hnodup

lemma load_eq_ok {m r : Model α} :
    m.load ps = .ok r ↔
      Parameters.check m.layout.shapes ps = .ok () ∧ r = Model.ofParameters m.layout ps := by
  unfold Model.load
  rw [bind_eq_ok]
  constructor
  · rintro ⟨_, hcheck, hload⟩
    exact ⟨hcheck, (Except.ok.inj hload).symm⟩
  · rintro ⟨hcheck, rfl⟩
    exact ⟨_, hcheck, rfl⟩

/-- Parameters of the right names and shapes are loaded whole, in whatever order they are given. -/
theorem load_of_perm {m : Model α} (hperm : ps.Perm qs) (hshapes : qs.shapes = m.layout.shapes)
    (hnodup : qs.names.Nodup) : m.load ps = .ok ⟨m.layout, qs, hshapes⟩ := by
  refine load_eq_ok.mpr ⟨check_of_perm hperm hshapes hnodup, ?_⟩
  unfold Model.ofParameters
  simp only [fit_of_perm hperm hshapes hnodup]

lemma difference_eq_nil {one two : List ParamName} :
    Parameters.difference one two = [] ↔ ∀ n, n ∈ one ↔ n ∈ two := by
  unfold Parameters.difference Text.sorted
  rw [← List.perm_nil, (List.mergeSort_perm _ _).congr_left, List.perm_nil, List.map_eq_nil_iff,
    List.append_eq_nil_iff, List.filter_eq_nil_iff, List.filter_eq_nil_iff]
  simp only [Bool.not_eq_true', Bool.not_eq_false, List.contains_iff_mem]
  exact ⟨fun h n => ⟨h.1 n, h.2 n⟩, fun h => ⟨fun n => (h n).mp, fun n => (h n).mpr⟩⟩

/-- Parameters are the same up to their order if they have the same names, and the same tensor under
each name. -/
theorem perm_of_tensor (hp : ps.names.Nodup) (hq : qs.names.Nodup)
    (hnames : ∀ n, n ∈ ps.names ↔ n ∈ qs.names)
    (htensor : ∀ n ∈ ps.names, ps.tensor n = qs.tensor n) : ps.Perm qs := by
  refine (List.perm_ext_iff_of_nodup hp.of_map hq.of_map).mpr fun p => ?_
  obtain ⟨name, t⟩ := p
  constructor
  · intro h
    have hname : name ∈ ps.names := List.mem_map_of_mem h
    rw [← tensor_of_mem hp h, htensor name hname]
    exact mem_tensor ((hnames name).mp hname)
  · intro h
    have hname : name ∈ ps.names := (hnames name).mpr (List.mem_map_of_mem h)
    rw [← tensor_of_mem hq h, ← htensor name hname]
    exact mem_tensor hname

end Lookups

section Fits

variable {β : Type} {own : Parameters α} {given : Parameters β}

/-- Tensors under exactly the names of parameters, each of the shape of the parameter of its name. -/
structure Fits (own : Parameters α) (given : Parameters β) : Prop where
  known : ∀ n ∈ given.names, n ∈ own.names
  found : ∀ p ∈ own, ∃ t, given.get? p.1 = some t ∧ t.shape = p.2.shape

lemma mem_shapes_iff {ps : Parameters α} (hnodup : ps.names.Nodup) {name : ParamName}
    {shape : List Nat} : (name, shape) ∈ ps.shapes ↔ ∃ t, ps.get? name = some t ∧ t.shape = shape := by
  constructor
  · intro h
    obtain ⟨p, hp, heq⟩ := List.mem_map.mp h
    cases heq
    exact ⟨p.2, lookup_of_mem hnodup hp, rfl⟩
  · rintro ⟨t, hget, rfl⟩
    obtain ⟨before, after, hsplit, -⟩ := List.lookup_eq_some_iff.mp hget
    have hmem : (name, t) ∈ ps := by
      rw [hsplit]
      exact List.mem_append_right before List.mem_cons_self
    exact List.mem_map_of_mem (f := fun p => (p.1, p.2.shape)) hmem

/-- Under distinct names, to fit is to have the same names and shapes in any order. -/
theorem fits_iff_perm (hown : own.names.Nodup) (hgiven : given.names.Nodup) :
    Fits own given ↔ given.shapes.Perm own.shapes := by
  constructor
  · intro h
    refine (List.perm_ext_iff_of_nodup (nodup_shapes hgiven) (nodup_shapes hown)).mpr fun entry => ?_
    obtain ⟨name, shape⟩ := entry
    constructor
    · intro hmem
      have hname : name ∈ given.names := by
        rw [← names_eq_shapes]
        exact List.mem_map_of_mem hmem
      obtain ⟨p, hp, rfl⟩ := List.mem_map.mp (h.known name hname)
      obtain ⟨t, ht, hshape⟩ := h.found p hp
      obtain ⟨u, hu, rfl⟩ := (mem_shapes_iff hgiven).mp hmem
      cases ht.symm.trans hu
      rw [hshape]
      exact List.mem_map_of_mem (f := fun p => (p.1, p.2.shape)) hp
    · intro hmem
      obtain ⟨p, hp, heq⟩ := List.mem_map.mp hmem
      cases heq
      exact (mem_shapes_iff hgiven).mpr (h.found p hp)
  · intro h
    refine ⟨fun n hn => ?_, fun p hp => (mem_shapes_iff hgiven).mp (h.mem_iff.mpr ?_)⟩
    · rw [← names_eq_shapes] at hn ⊢
      exact (h.map Prod.fst).mem_iff.mp hn
    · exact List.mem_map_of_mem (f := fun p => (p.1, p.2.shape)) hp

/-- What fits parameters has their names, and under each of them a tensor of the shape. -/
lemma fits_iff [Zero β] : Fits own given ↔
    (∀ n, n ∈ own.names ↔ n ∈ given.names) ∧ ∀ e ∈ own.shapes, (given.tensor e.1).shape = e.2 := by
  constructor
  · intro h
    refine ⟨fun n => ⟨fun hn => ?_, h.known n⟩, fun e he => ?_⟩
    · obtain ⟨p, hp, rfl⟩ := List.mem_map.mp hn
      obtain ⟨t, ht, -⟩ := h.found p hp
      by_contra hmissing
      rw [get?_of_not_mem hmissing] at ht
      cases ht
    · obtain ⟨p, hp, rfl⟩ := List.mem_map.mp he
      obtain ⟨t, ht, hshape⟩ := h.found p hp
      unfold Parameters.tensor
      rw [ht]
      exact hshape
  · rintro ⟨hnames, hshapes⟩
    refine ⟨fun n hn => (hnames n).mpr hn, fun p hp => ?_⟩
    refine ⟨given.tensor p.1, get?_of_mem ((hnames p.1).mp (List.mem_map_of_mem hp)), ?_⟩
    exact hshapes _ (List.mem_map_of_mem (f := fun p => (p.1, p.2.shape)) hp)

/-- Two sets of parameters have the same names and shapes. -/
theorem shapes_perm_iff [Zero α] {ps qs : Parameters α} (hp : ps.names.Nodup) (hq : qs.names.Nodup) :
    ps.shapes.Perm qs.shapes ↔
      (∀ n, n ∈ ps.names ↔ n ∈ qs.names) ∧ ∀ p ∈ ps, (qs.tensor p.1).shape = p.2.shape := by
  rw [List.perm_comm, ← fits_iff_perm hp hq, fits_iff]
  unfold Parameters.shapes
  rw [List.forall_mem_map]

end Fits

section Names

/-- The names of the parameters of layers begin at their position. -/
lemma mem_layerShapes {position : Nat} {layers : List LayerSize} {name : ParamName}
    (h : name ∈ (Layout.layerShapes position layers).map Prod.fst) :
    ∃ i, position ≤ i ∧ (name = .deepWeight i ∨ name = .deepBias i) := by
  induction layers generalizing position with
  | nil => cases h
  | cons s rest ih =>
    rw [Layout.layerShapes, List.map_cons, List.map_cons, List.mem_cons, List.mem_cons] at h
    rcases h with rfl | rfl | hrest
    · exact ⟨position, le_rfl, Or.inl rfl⟩
    · exact ⟨position, le_rfl, Or.inr rfl⟩
    · obtain ⟨i, hi, hname⟩ := ih hrest
      exact ⟨i, by omega, hname⟩

lemma layerShapes_nodup (position : Nat) (layers : List LayerSize) :
    ((Layout.layerShapes position layers).map Prod.fst).Nodup := by
  induction layers generalizing position with
  | nil => exact List.nodup_nil
  | cons s rest ih =>
    have hlater : ∀ name ∈ (Layout.layerShapes (position + 1) rest).map Prod.fst,
        name ≠ .deepWeight position ∧ name ≠ .deepBias position := by
      intro name hname
      obtain ⟨i, hi, hcases⟩ := mem_layerShapes hname
      have hne : i ≠ position := by omega
      rcases hcases with rfl | rfl <;> simp [hne]
    rw [Layout.layerShapes, List.map_cons, List.map_cons, List.nodup_cons, List.nodup_cons]
    refine ⟨?_, ?_, ih (position + 1)⟩
    · intro hmem
      rcases List.mem_cons.mp hmem with heq | hrest
      · cases heq
      · exact (hlater _ hrest).1 rfl
    · intro hmem
      exact (hlater _ hmem).2 rfl

lemma mem_shapes_embed {l : Layout} {t : TableSize} (h : t ∈ l.embedTables) :
    (ParamName.embedding t.column, [t.rows, t.width]) ∈ l.shapes := by
  have hmap := List.mem_map_of_mem (f := fun t : TableSize =>
    (ParamName.embedding t.column, [t.rows, t.width])) h
  exact List.mem_cons_of_mem _ (List.mem_append_left _ (List.mem_append_left _ hmap))

lemma mem_shapes_wide {l : Layout} {t : TableSize} (h : t ∈ l.wideTables) :
    (ParamName.wide t.column, [t.rows, t.width]) ∈ l.shapes := by
  have hmap := List.mem_map_of_mem (f := fun t : TableSize =>
    (ParamName.wide t.column, [t.rows, t.width])) h
  exact List.mem_cons_of_mem _ (List.mem_append_left _ (List.mem_append_right _ hmap))

lemma mem_shapes_layers {l : Layout} {p : ParamName × List Nat}
    (h : p ∈ Layout.layerShapes 0 l.layers) : p ∈ l.shapes :=
  List.mem_cons_of_mem _ (List.mem_append_right _ h)

/-- The parameters of a layout without double tables have distinct names. -/
theorem shapes_nodup {l : Layout} (h : DistinctTables l) : (l.shapes.map Prod.fst).Nodup := by
  have hembed : (l.embedTables.map fun t => ParamName.embedding t.column).Nodup := by
    have hmap := h.embed.map (f := ParamName.embedding) fun a b hab => ParamName.embedding.inj hab
    rwa [List.map_map] at hmap
  have hwide : (l.wideTables.map fun t => ParamName.wide t.column).Nodup := by
    have hmap := h.wide.map (f := ParamName.wide) fun a b hab => ParamName.wide.inj hab
    rwa [List.map_map] at hmap
  have hsplit : l.shapes.map Prod.fst = .wideBias ::
      (l.embedTables.map (fun t => ParamName.embedding t.column) ++
        l.wideTables.map (fun t => ParamName.wide t.column) ++
        (Layout.layerShapes 0 l.layers).map Prod.fst) := by
    unfold Layout.shapes
    simp only [List.map_cons, List.map_append, List.map_map, Function.comp_def]
  have hlayer : ∀ name ∈ (Layout.layerShapes 0 l.layers).map Prod.fst,
      ∃ i, name = .deepWeight i ∨ name = .deepBias i := by
    intro name hname
    obtain ⟨i, -, hcases⟩ := mem_layerShapes hname
    exact ⟨i, hcases⟩
  rw [hsplit, List.nodup_cons, List.nodup_append', List.nodup_append']
  refine ⟨?_, ⟨hembed, hwide, ?_⟩, layerShapes_nodup 0 l.layers, ?_⟩
  · intro hmem
    rcases List.mem_append.mp hmem with htable | hdeep
    · simp at htable
    · obtain ⟨i, hi | hi⟩ := hlayer _ hdeep <;> cases hi
  · intro name he hw
    obtain ⟨t, -, rfl⟩ := List.mem_map.mp he
    obtain ⟨u, -, heq⟩ := List.mem_map.mp hw
    cases heq
  · intro name htable hdeep
    obtain ⟨i, rfl | rfl⟩ := hlayer _ hdeep <;> simp at htable

lemma names_layout (m : Model α) : m.layout.shapes.map Prod.fst = m.parameters.names := by
  rw [← m.parameters_fit, names_eq_shapes]

/-- The names of the parameters of a model without double tables are distinct. -/
lemma names_nodup {m : Model α} (h : DistinctTables m.layout) : m.parameters.names.Nodup := by
  rw [← names_layout]
  exact shapes_nodup h

/-- Cutting the parameters of a model to fit its layout changes nothing. -/
theorem ofParameters_self [Zero α] {m : Model α} (h : DistinctTables m.layout) :
    Model.ofParameters m.layout m.parameters = m := by
  unfold Model.ofParameters
  simp only [fit_of_perm (List.Perm.refl _) m.parameters_fit (names_nodup h)]

end Names

end WideDeep.Proofs
