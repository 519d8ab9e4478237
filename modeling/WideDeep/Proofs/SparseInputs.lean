import Mathlib.Tactic
import WideDeep.Proofs.PlannedLayouts

/-!
# Sparse inputs

The inputs of a part are a map from columns to indices, and of an index only the row counts that it
reads. A record has the same result from all inputs that read the same rows, on its own and at every
place of a batch.
-/

namespace WideDeep.Proofs

section Reading

variable {before after inputs others : List SparseInput} {s : SparseInput} {c : Int}

/-- An input for another column is not seen. -/
lemma indexOf_other (h : s.column ≠ c) :
    SparseInput.indexOf (before ++ s :: after) c = SparseInput.indexOf (before ++ after) c := by
  simp [SparseInput.indexOf, h]

/-- An input counts for nothing if a later one is for its column. -/
lemma indexOf_overruled (h : ∃ q ∈ after, q.column = c) :
    SparseInput.indexOf (before ++ s :: after) c = SparseInput.indexOf after c := by
  have hsome : (after.reverse.find? (·.column == c)).isSome = true := by simpa using h
  obtain ⟨q, hq⟩ := Option.isSome_iff_exists.mp hsome
  simp [SparseInput.indexOf, hq]

lemma indexOf_last (hs : s.column = c) (h : ∀ q ∈ after, q.column ≠ c) :
    SparseInput.indexOf (before ++ s :: after) c = s.index := by
  have hnone : after.reverse.find? (·.column == c) = none := by simpa using h
  simp [SparseInput.indexOf, hnone, hs]

lemma indexOf_absent (h : ∀ q ∈ inputs, q.column ≠ c) : SparseInput.indexOf inputs c = -1 := by
  have hnone : inputs.reverse.find? (·.column == c) = none := by simpa using h
  simp [SparseInput.indexOf, hnone]

lemma indexOf_perm (hnodup : (inputs.map (·.column)).Nodup) (hperm : inputs.Perm others) :
    SparseInput.indexOf inputs c = SparseInput.indexOf others c := by
  have hother : (others.reverse.map (·.column)).Nodup := by
    rw [List.map_reverse, List.nodup_reverse]
    exact (hperm.map _).nodup_iff.mp hnodup
  unfold SparseInput.indexOf
  cases hfind : inputs.reverse.find? (·.column == c) with
  | none =>
    have hnone : others.reverse.find? (·.column == c) = none := by
      simpa [hperm.mem_iff] using hfind
    rw [hnone]
  | some q =>
    have hcolumn : q.column = c := by simpa using List.find?_some hfind
    have hmem : q ∈ others.reverse := by
      simpa [hperm.mem_iff] using List.mem_of_find?_eq_some hfind
    rw [← hcolumn, find?_of_mem hother hmem]

lemma resolve_last (rows : Nat) : resolve rows ((rows : Int) - 1) = rows - 1 := by
  unfold resolve
  split <;> omega

end Reading

section Restating

variable {tables : List TableSize} {columns : List Int} {inputs others : List SparseInput}

/-- The input that reads the last row of a table. -/
def lastRow (t : TableSize) : SparseInput :=
  ⟨t.column, (t.rows : Int) - 1⟩

lemma resolve_lastRow {before after : List SparseInput} {t : TableSize}
    (h : ∀ q ∈ after, q.column ≠ t.column) :
    resolve t.rows (SparseInput.indexOf (before ++ lastRow t :: after) t.column) = t.rows - 1 := by
  have hlast : SparseInput.indexOf (before ++ lastRow t :: after) t.column = (t.rows : Int) - 1 :=
    indexOf_last rfl h
  rw [hlast, resolve_last]

/-- Inputs of a part and what may be given in their place: the same ones in another order, if they
are for distinct columns; one more for a column that the part does not use; and the last row, for an
index outside its table or for a column without input. -/
inductive Restated (tables : List TableSize) (columns : List Int) :
    List SparseInput → List SparseInput → Prop
  | reordered {inputs others : List SparseInput} (distinct : (inputs.map (·.column)).Nodup)
      (perm : inputs.Perm others) : Restated tables columns inputs others
  | unused (before after : List SparseInput) {s : SparseInput} (other : s.column ∉ columns) :
      Restated tables columns (before ++ after) (before ++ s :: after)
  | outside (before after : List SparseInput) {s : SparseInput} {t : TableSize} (table : t ∈ tables)
      (column : s.column = t.column) (index : s.index < 0 ∨ t.rows ≤ s.index) :
      Restated tables columns (before ++ s :: after) (before ++ lastRow t :: after)
  | absent (before after : List SparseInput) {t : TableSize} (table : t ∈ tables)
      (none : ∀ s ∈ before ++ after, s.column ≠ t.column) :
      Restated tables columns (before ++ after) (before ++ lastRow t :: after)

/-- Inputs that read the same rows of the tables of the columns. -/
def SameRows (tables : List TableSize) (columns : List Int) (inputs others : List SparseInput) :
    Prop :=
  ∀ t ∈ tables, t.column ∈ columns →
    resolve t.rows (SparseInput.indexOf inputs t.column) =
      resolve t.rows (SparseInput.indexOf others t.column)

lemma sameRows_restated (hnodup : (tables.map (·.column)).Nodup)
    (h : Restated tables columns inputs others) : SameRows tables columns inputs others := by
  intro t ht hcolumn
  cases h with
  | reordered distinct perm => rw [indexOf_perm distinct perm]
  | @unused before after s other =>
    rw [indexOf_other]
    intro hsame
    exact other (hsame ▸ hcolumn)
  | @outside before after s u table column index =>
    by_cases hsame : u.column = t.column
    · have hu : u = t := List.inj_on_of_nodup_map hnodup table ht hsame
      subst hu
      by_cases hlater : ∃ q ∈ after, q.column = u.column
      · rw [indexOf_overruled hlater, indexOf_overruled hlater]
      · have hnone : ∀ q ∈ after, q.column ≠ u.column := fun q hq heq => hlater ⟨q, hq, heq⟩
        rw [resolve_lastRow hnone, indexOf_last column hnone, resolve_outside index]
    · rw [indexOf_other (column ▸ hsame), indexOf_other hsame]
  | @absent before after u table none =>
    by_cases hsame : u.column = t.column
    · have hu : u = t := List.inj_on_of_nodup_map hnodup table ht hsame
      subst hu
      have hnone : ∀ q ∈ after, q.column ≠ u.column :=
        fun q hq => none q (List.mem_append_right _ hq)
      rw [resolve_lastRow hnone, indexOf_absent none, resolve_outside (Or.inl (by decide))]
    · rw [indexOf_other hsame]

/-- Any number of such changes, in either direction, reads the same rows. -/
theorem sameRows_of_restated (hnodup : (tables.map (·.column)).Nodup)
    (h : Relation.EqvGen (Restated tables columns) inputs others) :
    SameRows tables columns inputs others := by
  induction h with
  | rel _ _ h => exact sameRows_restated hnodup h
  | refl _ => exact fun _ _ _ => rfl
  | symm _ _ _ ih => exact fun t ht hcolumn => (ih t ht hcolumn).symm
  | trans _ _ _ _ _ ihfirst ihsecond =>
    exact fun t ht hcolumn => (ihfirst t ht hcolumn).trans (ihsecond t ht hcolumn)

end Restating

section Records

variable {α : Type}

/-- A record with as many dense values and indices as a layout reads. -/
structure Readable (l : Layout) (r : Inputs α) : Prop where
  dense : r.dense.length = l.dense.length
  embed : r.embed.length = l.embed.length
  wide : r.wide.length = l.wide.length

/-- The inputs of records as one batch. -/
def batchOf (l : Layout) (rows : List (Inputs α)) : Batch α :=
  ⟨⟨l.dense.length, rows.map (·.dense)⟩, ⟨l.embed.length, rows.map (·.embed)⟩,
    ⟨l.wide.length, rows.map (·.wide)⟩⟩

lemma readable_inputsFor {l : Layout} {dense : List α} (h : dense.length = l.dense.length)
    (embed wide : List SparseInput) : Readable l (inputsFor l dense embed wide) :=
  ⟨h, List.length_map _, List.length_map _⟩

lemma single_eq_batchOf {l : Layout} {dense : List α} (h : dense.length = l.dense.length)
    (embed wide : List SparseInput) :
    Model.single l dense embed wide = batchOf l [inputsFor l dense embed wide] := by
  unfold Model.single batchOf inputsFor
  rw [h]
  rfl

variable [Scalar α] {spec : LayoutSpec} {m : Model α} {embed wide embed' wide' : List SparseInput}

/-- A batch is scored record by record, unless the tables and the dense values do not give the
inputs of the layers. -/
theorem scores_batchOf (hmake : Layout.make spec = .ok m.layout) (hfilled : Filled m.layout)
    {rows : List (Inputs α)} (hrows : ∀ r ∈ rows, Readable m.layout r) :
    m.scores (batchOf m.layout rows) =
      if m.layout.dense.length + Model.embedWidth m.layout = m.layout.inputs then
        .ok (rows.map m.score)
      else .error .tensorShape := by
  have hcount := resultCount_of_filled (b := batchOf m.layout rows) (n := rows.length)
    (embedTable_of_make hmake) (wideTable_of_make hmake) hfilled (List.length_map _)
    (List.length_map _) (List.length_map _) le_rfl le_rfl
  have hrecords := records_rows (b := batchOf m.layout rows) rows rfl rfl rfl
    (fun r hr => (hrows r hr).embed) (fun r hr => (hrows r hr).wide)
  change _ = if m.layout.dense.length + Model.embedWidth m.layout = m.layout.inputs then _ else _
    at hcount
  have hregular : Regular (batchOf m.layout rows) :=
    ⟨List.forall_mem_map.mpr fun r hr => (hrows r hr).embed,
      List.forall_mem_map.mpr fun r hr => (hrows r hr).wide⟩
  unfold Model.scores
  rw [logits_eq hregular, hcount]
  split
  · change Except.ok (((Model.records _ _ _).map m.logit).map sigmoid) = _
    rw [hrecords, List.map_map]
    rfl
  · rfl

/-- A record on its own is scored as a batch of one. -/
lemma compute_eq_scores {dense : List α} (hdense : dense.length = m.layout.dense.length)
    (hembed : ∀ s ∈ embed, fitsIndex s.index = true)
    (hwide : ∀ s ∈ wide, fitsIndex s.index = true) :
    m.compute dense embed wide =
      m.scores (batchOf m.layout [inputsFor m.layout dense embed wide]) := by
  have hwords : (m.layout.embed.map (SparseInput.indexOf embed) ++
      m.layout.wide.map (SparseInput.indexOf wide)).all fitsIndex = true := by
    rw [List.all_append, List.all_map, List.all_map, Bool.and_eq_true, List.all_eq_true,
      List.all_eq_true]
    exact ⟨fun c _ => fitsIndex_indexOf hembed c, fun c _ => fitsIndex_indexOf hwide c⟩
  unfold Model.compute
  rw [if_pos hwords, single_eq_batchOf hdense]

omit [Scalar α] in
/-- What an index reads from a table depends on its row. -/
lemma lookup_of_resolve {table : Tensor α} {rows width : Nat} (h : table.shape = [rows, width])
    {i j : Int} (hrow : resolve rows i = resolve rows j) :
    Model.lookup table.rows i = Model.lookup table.rows j := by
  unfold Model.lookup
  rw [length_rows h, hrow]

/-- The score of a record depends on the rows that its inputs read. -/
theorem score_of_sameRows (hmake : Layout.make spec = .ok m.layout) (dense : List α)
    (hembed : SameRows m.layout.embedTables m.layout.embed embed embed')
    (hwide : SameRows m.layout.wideTables m.layout.wide wide wide') :
    m.score (inputsFor m.layout dense embed wide) =
      m.score (inputsFor m.layout dense embed' wide') := by
  have hshapes : ∀ p ∈ m.layout.shapes, (m.parameters.tensor p.1).shape = p.2 := fun _ hp =>
    shape_tensor (names_nodup (distinct_of_make hmake)) m.parameters_fit hp
  have hembedRead : ∀ c ∈ m.layout.embed,
      Model.lookup (m.embedRows c) (SparseInput.indexOf embed c) =
        Model.lookup (m.embedRows c) (SparseInput.indexOf embed' c) := by
    intro c hc
    obtain ⟨t, ht, rfl⟩ := embedTable_of_make hmake c hc
    exact lookup_of_resolve (hshapes _ (mem_shapes_embed ht)) (hembed t ht hc)
  have hwideRead : ∀ c ∈ m.layout.wide,
      Model.lookup (m.wideRows c) (SparseInput.indexOf wide c) =
        Model.lookup (m.wideRows c) (SparseInput.indexOf wide' c) := by
    intro c hc
    obtain ⟨t, ht, rfl⟩ := wideTable_of_make hmake c hc
    exact lookup_of_resolve (hshapes _ (mem_shapes_wide ht)) (hwide t ht hc)
  have hdeep : m.deepInputs (inputsFor m.layout dense embed wide) =
      m.deepInputs (inputsFor m.layout dense embed' wide') := by
    unfold Model.deepInputs inputsFor
    simp only [← List.map_prod_left_eq_zip, List.flatMap_map]
    rw [List.flatMap_congr hembedRead]
  have hsum : m.wideSum (m.layout.wide.map (SparseInput.indexOf wide)) =
      m.wideSum (m.layout.wide.map (SparseInput.indexOf wide')) := by
    unfold Model.wideSum
    simp only [← List.map_prod_left_eq_zip, List.foldl_map]
    refine List.foldl_ext _ _ _ fun sum c hc => ?_
    rw [hwideRead c hc]
  unfold Model.score Model.logit
  rw [hdeep]
  change sigmoid (_ + m.wideSum (m.layout.wide.map _)) =
    sigmoid (_ + m.wideSum (m.layout.wide.map _))
  rw [hsum]

/-- A record has one score, which it has at every place of a batch too, and which stays the same if
its sparse inputs are given in another order, for columns that are not used as well, or with the last
row of a table for an index outside the table or no index. It is only refused if the tables and the
dense values do not give the inputs of the layers, as for a column that is embedded in two widths. -/
theorem compute_restated (hmake : Layout.make spec = .ok m.layout) (hfilled : Filled m.layout)
    {dense : List α} (hdense : dense.length = m.layout.dense.length)
    (hindices : ∀ s ∈ embed ++ wide ++ embed' ++ wide', fitsIndex s.index = true)
    (hembed : Relation.EqvGen (Restated m.layout.embedTables m.layout.embed) embed embed')
    (hwide : Relation.EqvGen (Restated m.layout.wideTables m.layout.wide) wide wide') :
    m.compute dense embed wide = m.compute dense embed' wide' ∧
    (m.compute dense embed wide =
      if m.layout.dense.length + Model.embedWidth m.layout = m.layout.inputs then
        .ok [m.score (inputsFor m.layout dense embed wide)]
      else .error .tensorShape) ∧
    ∀ (rows : List (Inputs α)) (i : Nat), (∀ r ∈ rows, Readable m.layout r) →
      rows[i]? = some (inputsFor m.layout dense embed' wide') →
      m.compute dense embed wide =
        (m.scores (batchOf m.layout rows)).map fun ys => ys[i]?.toList := by
  simp only [List.forall_mem_append] at hindices
  obtain ⟨⟨⟨hfits, hfitsWide⟩, hfits'⟩, hfitsWide'⟩ := hindices
  have hdistinct := distinct_of_make hmake
  have hscore : m.score (inputsFor m.layout dense embed wide) =
      m.score (inputsFor m.layout dense embed' wide') :=
    score_of_sameRows hmake dense (sameRows_of_restated hdistinct.embed hembed)
      (sameRows_of_restated hdistinct.wide hwide)
  have hsingle : ∀ embed wide, ∀ r ∈ [inputsFor m.layout dense embed wide], Readable m.layout r :=
    fun embed wide => List.forall_mem_singleton.mpr (readable_inputsFor hdense embed wide)
  have hcompute : m.compute dense embed wide =
      if m.layout.dense.length + Model.embedWidth m.layout = m.layout.inputs then
        .ok [m.score (inputsFor m.layout dense embed wide)]
      else .error .tensorShape := by
    rw [compute_eq_scores hdense hfits hfitsWide, scores_batchOf hmake hfilled (hsingle embed wide)]
    rfl
  refine ⟨?_, hcompute, fun rows i hrows hi => ?_⟩
  · rw [hcompute, hscore, compute_eq_scores hdense hfits' hfitsWide',
      scores_batchOf hmake hfilled (hsingle embed' wide')]
    rfl
  · rw [hcompute, hscore, scores_batchOf hmake hfilled hrows]
    split
    · simp [Except.map, hi]
    · rfl

end Records

section Sample

/-- Column 7 has three categories, is wide, and is embedded twice; column 2 has one category. -/
def hedgeSpec : LayoutSpec where
  categories := [(7, 3), (2, 1)]
  dense := []
  embed := [.int 7, .int 2, .int 7]
  embedWidths := [.int 2, .int 1, .int 2]
  wide := [.int 7]
  hidden := [.int 2]
  activations := [.text "relu"]
  l2 := .int 0

def hedgeModel : Model Float32 :=
  countedModel ⟨[], [7, 2, 7], [7], [⟨7, 4, 2⟩, ⟨2, 2, 1⟩], [⟨7, 4, 1⟩], 5, [(2, .relu)], 0⟩

/-- The inputs of a record of the first category, and of one of none. -/
def hedgeRows : List (Inputs Float32) :=
  [inputsFor hedgeModel.layout [] [⟨7, 0⟩] [⟨7, 0⟩],
    inputsFor hedgeModel.layout [] [⟨2, 1⟩, ⟨5, 0⟩, ⟨7, 3⟩] [⟨7, 3⟩]]

/-- An index that is too large is restated by the last row, by the last row of another column and by an
index of a column that is not used. The record has its score alone and behind another record, whose
logit differs from its own. -/
theorem compute_restated_hedge :
    hedgeModel.compute [] [⟨7, 9⟩] [] =
      hedgeModel.compute [] [⟨2, 1⟩, ⟨5, 0⟩, ⟨7, 3⟩] [⟨7, 3⟩] ∧
    (∃ y, hedgeModel.compute [] [⟨7, 9⟩] [] = .ok [y]) ∧
    hedgeModel.compute [] [⟨7, 9⟩] [] =
      (hedgeModel.scores (batchOf hedgeModel.layout hedgeRows)).map (fun ys => ys[1]?.toList) ∧
    (hedgeRows.map hedgeModel.logit).Nodup := by
  have hembed : Relation.EqvGen
      (Restated hedgeModel.layout.embedTables hedgeModel.layout.embed)
      [⟨7, 9⟩] [⟨2, 1⟩, ⟨5, 0⟩, ⟨7, 3⟩] := by
    have hlast : Restated hedgeModel.layout.embedTables hedgeModel.layout.embed [⟨7, 9⟩] [⟨7, 3⟩] :=
      .outside [] [] (t := ⟨7, 4, 2⟩) (by decide) rfl (by decide)
    have hgiven : Restated hedgeModel.layout.embedTables hedgeModel.layout.embed
        [⟨7, 3⟩] [⟨2, 1⟩, ⟨7, 3⟩] :=
      .absent [] [⟨7, 3⟩] (t := ⟨2, 2, 1⟩) (by decide) (by decide)
    have hother : Restated hedgeModel.layout.embedTables hedgeModel.layout.embed
        [⟨2, 1⟩, ⟨7, 3⟩] [⟨2, 1⟩, ⟨5, 0⟩, ⟨7, 3⟩] :=
      .unused [⟨2, 1⟩] [⟨7, 3⟩] (by decide)
    exact .trans _ _ _ (.rel _ _ hlast) (.trans _ _ _ (.rel _ _ hgiven) (.rel _ _ hother))
  have hwide : Relation.EqvGen (Restated hedgeModel.layout.wideTables hedgeModel.layout.wide)
      [] [⟨7, 3⟩] :=
    .rel _ _ (.absent [] [] (t := ⟨7, 4, 1⟩) (by decide) (by decide))
  have hfilled : Filled hedgeModel.layout := by
    unfold Filled
    decide
  have hmake : Layout.make hedgeSpec = .ok hedgeModel.layout := rfl
  have hdense : ([] : List Float32).length = hedgeModel.layout.dense.length := rfl
  obtain ⟨hsame, hscore, hbatch⟩ := compute_restated hmake hfilled hdense (by decide) hembed hwide
  have hrows : ∀ r ∈ hedgeRows, Readable hedgeModel.layout r := by
    unfold hedgeRows
    exact List.forall_mem_cons.mpr ⟨readable_inputsFor hdense _ _,
      List.forall_mem_singleton.mpr (readable_inputsFor hdense _ _)⟩
  rw [if_pos (by decide)] at hscore
  exact ⟨hsame, ⟨_, hscore⟩, hbatch hedgeRows 1 hrows rfl, by decide +kernel⟩

end Sample

end WideDeep.Proofs
