import Mathlib.Tactic
import WideDeep.Proofs.PartitionedRounds

/-!
# Safe batches

A record that has as many values as a layout reads is safe whatever the values are: its look-ups meet
rows of the tables, it fills the inputs of the deep part, and it has one logit. Its gradient fills the
parameters. So a worker with such records answers every broadcast that fits the layout, and the
gradients that it sends fit the layout as well.
-/

namespace WideDeep.Proofs

section Records

variable {α : Type} [Scalar α] {m : Model α} {d : Dataset α}

lemma rows_of_embed (h : Ready m.layout) {n : Int} (hn : n ∈ m.layout.embed) :
    ∃ t ∈ m.layout.embedTables, t.column = n ∧ (m.embedRows n).length = t.rows ∧ 0 < t.rows := by
  obtain ⟨t, ht, rfl⟩ := h.embed n hn
  exact ⟨t, ht, rfl, length_rows (shape_of_ready h _ (mem_shapes_embed ht)),
    h.filled t (List.mem_append_left _ ht)⟩

lemma rows_of_wide (h : Ready m.layout) {n : Int} (hn : n ∈ m.layout.wide) :
    ∃ t ∈ m.layout.wideTables, t.column = n ∧ (m.wideRows n).length = t.rows ∧ 0 < t.rows := by
  obtain ⟨t, ht, rfl⟩ := h.wide n hn
  exact ⟨t, ht, rfl, length_rows (shape_of_ready h _ (mem_shapes_wide ht)),
    h.filled t (List.mem_append_right _ ht)⟩

/-- A record that a model can be applied to: each index reads a row that the table of its column has,
the deep part gets the inputs of its first layer, and the logit comes from numbers of the model. -/
structure SafeRecord (m : Model α) (r : Inputs α) : Prop where
  embed : ∀ p ∈ m.layout.embed.zip r.embed, ∃ t ∈ m.layout.embedTables, t.column = p.1 ∧
    (m.embedRows p.1).length = t.rows ∧ resolve t.rows p.2 < t.rows
  wide : ∀ p ∈ m.layout.wide.zip r.wide, ∃ t ∈ m.layout.wideTables, t.column = p.1 ∧
    (m.wideRows p.1).length = t.rows ∧ resolve t.rows p.2 < t.rows
  inputs : (m.deepInputs r).length = m.layout.inputs
  determined : Determined m r

/-- A record of as many values as the layout reads is safe. -/
theorem safeRecord_of_ready (h : Ready m.layout) {r : Inputs α}
    (hdense : r.dense.length = m.layout.dense.length)
    (hembed : r.embed.length = m.layout.embed.length) : SafeRecord m r := by
  have hlength := length_deepInputs h hdense hembed
  have hlayers : LayersFit m.layout.inputs m.layers :=
    layersFit_layersFrom m 0 _ _ fun p hp => shape_of_ready h p (mem_shapes_layers hp)
  obtain ⟨y, hy⟩ := evaluates_of_fit hlayers hlength
  refine ⟨fun p hp => ?_, fun p hp => ?_, hlength, fun p hp => ?_, fun p hp => ?_, y, hy, ?_⟩
  · obtain ⟨t, ht, hcolumn, hrows, hpos⟩ := rows_of_embed h (List.of_mem_zip hp).1
    exact ⟨t, ht, hcolumn, hrows, resolve_lt hpos p.2⟩
  · obtain ⟨t, ht, hcolumn, hrows, hpos⟩ := rows_of_wide h (List.of_mem_zip hp).1
    exact ⟨t, ht, hcolumn, hrows, resolve_lt hpos p.2⟩
  · obtain ⟨t, -, -, hrows, hpos⟩ := rows_of_embed h (List.of_mem_zip hp).1
    exact lookup_mem (hrows ▸ hpos) p.2
  · obtain ⟨t, -, -, hrows, hpos⟩ := rows_of_wide h (List.of_mem_zip hp).1
    exact lookup_mem (hrows ▸ hpos) p.2
  · unfold Model.logit
    rw [deepSum_of_evaluates hy]
    rfl

/-- Records that fit a layout have one logit each. -/
theorem logits_of_fitting (hl : Ready m.layout) (h : Fitting m.layout d) :
    m.logits d.batch = .ok (d.samples.map fun s => m.logit s.inputs) := by
  have hrows : Model.records m.layout d.batch d.size = d.samples.map (·.inputs) := by
    have hcolumn : ∀ {β : Type} (part : Inputs α → β),
        d.samples.map (fun s => part s.inputs) = (d.samples.map (·.inputs)).map part :=
      fun _ => List.map_map.symm
    have hbatch := records_rows (l := m.layout) (b := d.batch) (d.samples.map Sample.inputs)
      (hcolumn Inputs.dense) (hcolumn Inputs.embed) (hcolumn Inputs.wide)
      (List.forall_mem_map.mpr h.embed) (List.forall_mem_map.mpr h.wide)
    rwa [List.length_map] at hbatch
  have hregular : Regular d.batch := by
    constructor
    · exact List.forall_mem_map.mpr fun s hs => (h.embed s hs).trans h.embedWidth.symm
    · exact List.forall_mem_map.mpr fun s hs => (h.wide s hs).trans h.wideWidth.symm
  rw [logits_eq hregular, resultCount_of_fitting hl h]
  change Except.ok ((Model.records m.layout d.batch d.size).map m.logit) = _
  rw [hrows, List.map_map]
  rfl

/-- Records that a model can be applied to, and that have a gradient. -/
structure SafeBatch (m : Model α) (d : Dataset α) : Prop where
  logits : m.logits d.batch = .ok (d.samples.map fun s => m.logit s.inputs)
  records : ∀ s ∈ d.samples, SafeRecord m s.inputs
  gradients : ∀ e ∈ m.layout.shapes,
    (gradientOf m.layout (d.samples.map fun s => (s, m.sensitivity s)) e.1 e.2).length = volume e.2

theorem safeBatch_of_fitting (hl : Ready m.layout) (h : Fitting m.layout d) : SafeBatch m d where
  logits := logits_of_fitting hl h
  records := fun s hs => safeRecord_of_ready hl (h.dense s hs) (h.embed s hs)
  gradients := fun _ he =>
    length_gradientOf hl (shapeOf_of_mem he) (forall_traced (allTraced_of_fitting hl h))

end Records

section Parts

variable {α : Type} {l : Layout} {d : Dataset α} {k : Int}

/-- The parts of records that fit a layout fit it. -/
lemma fitting_of_split {parts : List (Dataset α)} (h : Fitting l d) (hsplit : d.split k = .ok parts) :
    ∀ p ∈ parts, Fitting l p := by
  unfold Dataset.split at hsplit
  split at hsplit
  · cases hsplit
  · cases hsplit
    intro p hp
    obtain ⟨i, -, rfl⟩ := List.mem_map.mp hp
    exact h.of_subset fun s hs => List.mem_of_mem_take (List.mem_of_mem_drop hs)

lemma mem_of_chunks {β : Type} {size fuel : Nat} {xs b : List β} (h : b ∈ Dataset.chunks size fuel xs) :
    ∀ x ∈ b, x ∈ xs := by
  induction fuel generalizing xs with
  | zero => cases h
  | succ fuel ih =>
    cases xs with
    | nil => cases h
    | cons y rest =>
      rcases List.mem_cons.mp h with rfl | hlater
      · exact fun x hx => List.mem_of_mem_take hx
      · exact fun x hx => List.mem_of_mem_drop (ih hlater x hx)

/-- The batches of records that fit a layout fit it. -/
lemma fitting_of_batches (h : Fitting l d) {size : Nat} :
    ∀ b ∈ d.batches size, Fitting l (d.withSamples b) :=
  fun _ hb => h.of_subset (mem_of_chunks hb)

/-- What several workers get of records that fit a layout fits it. -/
lemma fitting_of_shares {validation : Option (Dataset α)}
    {parts : List (Dataset α × Option (Dataset α))} (h : Fitting l d)
    (hvalidation : ∀ v ∈ validation, Fitting l v) (hshares : Worker.shares k d validation = .ok parts) :
    ∀ p ∈ parts, Fitting l p.1 ∧ ∀ v ∈ p.2, Fitting l v := by
  obtain ⟨trainParts, htrain, hshares⟩ := bind_eq_ok.mp hshares
  obtain ⟨validationParts, hvalid, hshares⟩ := bind_eq_ok.mp hshares
  cases hshares
  have hfits : ∀ given ∈ validationParts, ∀ v ∈ given, Fitting l v := by
    cases validation with
    | none =>
      cases hvalid
      intro given hgiven v hv
      rw [List.eq_of_mem_replicate hgiven] at hv
      cases hv
    | some w =>
      obtain ⟨ws, hws, rfl⟩ := map_eq_ok.mp hvalid
      intro given hgiven v hv
      obtain ⟨p, hp, rfl⟩ := List.mem_map.mp hgiven
      cases hv
      exact fitting_of_split (hvalidation w rfl) hws _ hp
  intro p hp
  obtain ⟨hleft, hright⟩ := List.of_mem_zip hp
  exact ⟨fitting_of_split h htrain p.1 hleft, hfits p.2 hright⟩

end Parts

section Workers

variable {α δ : Type} [Scalar α] [Scalar δ] [Precision α δ] {c : ModelConfig} {l : Layout}
  {weights : Parameters α}

lemma shapes_sumGradients (m : Model α) (batches : List (List (Sample α))) :
    (Worker.sumGradients m batches).shapes = m.layout.shapes := by
  have hstart : Parameters.shapes (m.layout.shapes.map fun e => (e.1, (Tensor.zeros e.2 : Tensor α))) =
      m.layout.shapes := by
    unfold Parameters.shapes
    rw [List.map_map]
    exact List.map_id' m.layout.shapes
  unfold Worker.sumGradients
  generalize (m.layout.shapes.map fun e => (e.1, (Tensor.zeros e.2 : Tensor α))) = start at hstart
  induction batches generalizing start with
  | nil => exact hstart
  | cons b rest ih => exact ih _ ((Parameters.shapes_combine _ _ _).trans hstart)

/-- A worker whose records fit its layout answers every broadcast that fits it, with gradients of the
names and shapes of the layout. -/
theorem compute_of_fitting {w : Worker α} (hl : Ready w.layout)
    (hweights : Parameters.check w.layout.shapes weights = .ok ()) (htrain : Fitting w.layout w.train)
    (hvalidation : ∀ v ∈ w.validation, Fitting w.layout v) (iteration : Int) :
    ∃ p : Payload δ, w.compute δ (some weights) iteration = .ok p ∧
      p.gradients.shapes = w.layout.shapes := by
  have hload : (Model.blank w.layout).load weights = .ok (Model.ofParameters w.layout weights) :=
    load_eq_ok.mpr ⟨hweights, rfl⟩
  have hshapes : ((Worker.sumGradients (Model.ofParameters w.layout weights)
      (w.train.batches w.batchSize)).mapValues (Precision.widen : α → δ)).shapes = w.layout.shapes :=
    (shapes_mapValues _ _).trans (shapes_sumGradients _ _)
  unfold Worker.compute
  dsimp only
  rw [hload, ok_bind, checkData_of_fitting hl htrain, ok_bind]
  cases hv : w.validation with
  | none => exact ⟨_, rfl, hshapes⟩
  | some v =>
    dsimp only
    rw [checkData_of_fitting hl (hvalidation v hv), ok_bind]
    exact ⟨_, rfl, hshapes⟩

/-- New workers whose records fit the layout of a configuration answer every broadcast that fits it,
whatever their batch sizes are. -/
theorem mapM_sends_of_fitting {parts : List (Dataset α × Option (Dataset α))} {sizes : List Int}
    (hlayout : c.layout = .ok l) (hweights : Parameters.check l.shapes weights = .ok ())
    (hparts : ∀ p ∈ parts, Fitting l p.1 ∧ ∀ v ∈ p.2, Fitting l v)
    (hsizes : sizes.length = parts.length) (hpositive : ∀ n ∈ sizes, 0 < n) (iteration : Int) :
    ∃ results : List (Payload δ),
      (parts.zip sizes).mapM (fun p => sends δ c weights iteration p.1 p.2) = .ok results ∧
      results.length = parts.length ∧ ∀ r ∈ results, r.gradients.shapes = l.shapes := by
  have hsend : ∀ p ∈ parts.zip sizes, ∃ r : Payload δ, sends δ c weights iteration p.1 p.2 = .ok r ∧
      r.gradients.shapes = l.shapes := by
    intro p hp
    obtain ⟨hshare, hsize⟩ := List.of_mem_zip hp
    obtain ⟨htrain, hvalidation⟩ := hparts p.1 hshare
    obtain ⟨w, hmake, rfl, htrained, hkept, -⟩ :=
      exists_worker hlayout (hpositive p.2 hsize) p.1.1 p.1.2
    unfold sends
    rw [hmake, ok_bind]
    exact compute_of_fitting (ready_of_layout hlayout) hweights (htrained ▸ htrain)
      (fun v hv => hvalidation v (hkept v hv)) iteration
  obtain ⟨results, hresults⟩ := exists_mapM_ok fun p hp => (hsend p hp).imp fun _ h => h.1
  have hsteps := mapM_eq_ok.mp hresults
  refine ⟨results, hresults, ?_, ?_⟩
  · rw [← hsteps.length_eq, List.length_zip, hsizes, min_self]
  · refine forall_of_forall₂ ((List.forall₂_and_left _ _).mpr ⟨hsend, hsteps⟩) ?_
    rintro p r ⟨⟨r', hr', hshapes⟩, hr⟩
    cases hr.symm.trans hr'
    exact hshapes

end Workers

end WideDeep.Proofs
