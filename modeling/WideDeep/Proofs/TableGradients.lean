import Mathlib.Tactic
import WideDeep.Proofs.ConfiguredColumns
import WideDeep.Proofs.FrameRows
import WideDeep.Proofs.PartitionedRounds
import WideDeep.Proofs.ResumedTraining

/-!
# Gradients of tables

What a record adds to the gradient of a table falls on the rows that it read. So the gradient of a
row is the sum over the positions at which records read it, and a row that is never read has none.
The numbers that are added are those of the sensitivity of a record, which are the derivatives of its
loss by `hasDerivAt_loss`.
-/

namespace WideDeep.Proofs
open WideDeep.Gradient

section Tables

variable {α : Type} {rows width : Nat} {t : List (List α)}

/-- A row of a table that is zero at all of its places. -/
lemma getElem?_tableOf_zero [Zero α] {f : Nat → Nat → α} {r : Nat} (hr : r < rows)
    (h : ∀ j, f r j = 0) : (tableOf rows width f)[r]? = some (List.replicate width 0) := by
  have hrow : (List.range width).map (f r) = List.replicate width 0 := by
    rw [List.map_congr_left fun j _ => h j, List.map_const', List.length_range]
  rw [tableOf, List.getElem?_map, List.getElem?_range hr, Option.map_some, hrow]

lemma pieces_flatten (h : IsTable rows width t) : Tensor.pieces width rows t.flatten = t := by
  obtain ⟨hrows, hwidth⟩ := h
  induction t generalizing rows with
  | nil =>
    subst hrows
    rfl
  | cons row rest ih =>
    subst hrows
    obtain ⟨hrow, hrest⟩ := List.forall_mem_cons.mp hwidth
    rw [List.length_cons, Tensor.pieces, List.flatten_cons, List.take_left' hrow,
      List.drop_left' hrow, ih rfl hrest]

end Tables

section Segments

variable {α β : Type}

/-- The numbers of a segment stand behind those of the segments before it. -/
lemma getD_segments {widths : List Nat} {i j n : Nat} (h : widths[i]? = some n) (hj : j < n)
    (xs : List α) (d : α) :
    ((segments widths xs).getD i []).getD j d = xs.getD ((widths.take i).sum + j) d := by
  induction widths generalizing i xs with
  | nil => cases h
  | cons m rest ih =>
    cases i with
    | zero =>
      cases h
      rw [segments, List.getD_cons_zero, List.take_zero, List.sum_nil, Nat.zero_add,
        List.getD_eq_getElem?_getD, List.getElem?_take_of_lt hj, ← List.getD_eq_getElem?_getD]
    | succ i =>
      rw [List.getElem?_cons_succ] at h
      rw [segments, List.getD_cons_succ, ih h, List.take_succ_cons, List.sum_cons,
        List.getD_eq_getElem?_getD, List.getElem?_drop, ← List.getD_eq_getElem?_getD, Nat.add_assoc]

lemma segments_flatMap (f : β → List α) (xs : List β) :
    segments (xs.map fun x => (f x).length) (xs.flatMap f) = xs.map f := by
  induction xs with
  | nil => rfl
  | cons x rest ih =>
    rw [List.map_cons, List.flatMap_cons, segments, List.take_left, List.drop_left, ih,
      List.map_cons]

lemma length_segments (widths : List Nat) (xs : List α) :
    (segments widths xs).length = widths.length := by
  induction widths generalizing xs with
  | nil => rfl
  | cons n rest ih => rw [segments, List.length_cons, ih, List.length_cons]

end Segments

section Reads

variable {α : Type} {columns indices : List Int} {t : TableSize} {r i : Nat}

/-- The positions of a part at which a record reads a row of a table: those of the column of the table
whose index stands for the row. -/
def positionsReading (columns indices : List Int) (t : TableSize) (r : Nat) : List Nat :=
  (List.range columns.length).filter fun i =>
    resolve t.rows (indices.getD i 0) == r && columns.getD i 0 == t.column

lemma mem_positionsReading : i ∈ positionsReading columns indices t r ↔
    i < columns.length ∧ resolve t.rows (indices.getD i 0) = r ∧ columns.getD i 0 = t.column := by
  simp [positionsReading]

/-- An index inside its table reads its own row. -/
lemma mem_positionsReading_inside (hi : i < columns.length) (hcolumn : columns.getD i 0 = t.column)
    (hleast : 0 ≤ indices.getD i 0) (hmost : indices.getD i 0 < t.rows) :
    i ∈ positionsReading columns indices t r ↔ r = indices.getD i 0 := by
  have hresolve : resolve t.rows (indices.getD i 0) = (indices.getD i 0).toNat :=
    if_pos ⟨hleast, hmost⟩
  rw [mem_positionsReading, hresolve]
  constructor
  · rintro ⟨-, hrow, -⟩
    omega
  · intro hrow
    exact ⟨hi, by omega, hcolumn⟩

/-- An index outside its table reads the last row. -/
lemma mem_positionsReading_outside (hi : i < columns.length) (hcolumn : columns.getD i 0 = t.column)
    (h : indices.getD i 0 < 0 ∨ t.rows ≤ indices.getD i 0) :
    i ∈ positionsReading columns indices t r ↔ r = t.rows - 1 := by
  rw [mem_positionsReading, resolve_outside h]
  exact ⟨fun hread => hread.2.1.symm, fun hlast => ⟨hi, hlast.symm, hcolumn⟩⟩

/-- What falls on the rows of a table: a row of numbers for each position of its column. -/
def hitsAt (columns indices : List Int) (t : TableSize) (value : Nat → List α) :
    List (Nat × List α) :=
  ((List.range columns.length).filter (columns.getD · 0 == t.column)).map fun i =>
    (resolve t.rows (indices.getD i 0), value i)

/-- On a row falls what the positions give that read the row. -/
lemma hitsAt_row [Zero α] (value : Nat → List α) (r j : Nat) :
    ((hitsAt columns indices t value).filter (·.1 == r)).map (·.2.getD j 0) =
      (positionsReading columns indices t r).map fun i => (value i).getD j 0 := by
  unfold hitsAt positionsReading
  rw [List.filter_map, List.map_map, List.filter_filter]
  rfl

/-- Distinct columns have one position each. -/
lemma hitsAt_single (h : columns.Nodup) (ht : t.column ∈ columns) (indices : List Int)
    (value : Nat → List α) :
    ∃ i, hitsAt columns indices t value = [(resolve t.rows (indices.getD i 0), value i)] := by
  have hcount : ((List.range columns.length).filter (columns.getD · 0 == t.column)).length = 1 := by
    calc ((List.range columns.length).filter (columns.getD · 0 == t.column)).length
        = (List.range columns.length).countP ((· == t.column) ∘ (columns.getD · 0)) :=
          List.countP_eq_length_filter.symm
      _ = columns.countP (· == t.column) := by
          rw [← List.countP_map, map_getD_range]
      _ = 1 := List.count_eq_one_of_mem h ht
  obtain ⟨i, hi⟩ := List.length_eq_one_iff.mp hcount
  refine ⟨i, ?_⟩
  unfold hitsAt
  rw [hi, List.map_singleton]

end Reads

section Records

variable {α : Type} [Scalar α] {l : Layout} {t : TableSize} {p : Sample α × Sensitivity α}
  {traced : List (Sample α × Sensitivity α)}

/-- The positions at which a record reads a row of a wide table. -/
def wideReads (l : Layout) (t : TableSize) (r : Nat) (s : Sample α) : List Nat :=
  positionsReading l.wide s.inputs.wide t r

/-- The positions at which a record reads a row of an embedding table. -/
def embedReads (l : Layout) (t : TableSize) (r : Nat) (s : Sample α) : List Nat :=
  positionsReading l.embed s.inputs.embed t r

/-- Where the embedding at a position begins among the inputs of the deep part. -/
def embedStart (l : Layout) (i : Nat) : Nat :=
  l.dense.length + ((l.embed.take i).map (columnWidth l)).sum

/-- The derivatives by the embeddings of a record, position by position. -/
def embedPieces (l : Layout) (p : Sample α × Sensitivity α) : List (List α) :=
  segments (l.embed.map (columnWidth l)) (p.2.inputs.drop p.1.inputs.dense.length)

omit [Scalar α] in
lemma wideHits_eq (h : p.1.inputs.wide.length = l.wide.length) :
    Model.wideHits l t.column t.rows p.1 p.2 =
      hitsAt l.wide p.1.inputs.wide t fun _ => [p.2.slope] := by
  unfold Model.wideHits hitsAt
  rw [zip_eq_map h.symm 0 0, List.filter_map, List.map_map]
  rfl

omit [Scalar α] in
lemma embedHits_eq (h : p.1.inputs.embed.length = l.embed.length) :
    Model.embedHits l t.column t.rows p.1 p.2 =
      hitsAt l.embed p.1.inputs.embed t fun i => (embedPieces l p).getD i [] := by
  have hindices : (List.range l.embed.length).map (p.1.inputs.embed.getD · 0) = p.1.inputs.embed :=
    h ▸ map_getD_range _ _
  have hlength : (embedPieces l p).length = l.embed.length :=
    (length_segments _ _).trans (List.length_map _)
  have hpieces : (List.range l.embed.length).map ((embedPieces l p).getD · []) = embedPieces l p :=
    hlength ▸ map_getD_range _ _
  have htriples : l.embed.zip (p.1.inputs.embed.zip (embedPieces l p)) =
      (List.range l.embed.length).map fun i =>
        (l.embed.getD i 0, p.1.inputs.embed.getD i 0, (embedPieces l p).getD i []) := by
    rw [← List.zip_map', ← List.zip_map', map_getD_range, hindices, hpieces]
  change ((l.embed.zip (p.1.inputs.embed.zip (embedPieces l p))).filter (·.1 == t.column)).map
    (fun q => (resolve t.rows q.2.1, q.2.2)) = _
  rw [htriples, List.filter_map, List.map_map]
  rfl

omit [Scalar α] in
/-- A column that is embedded has its width at each of its positions. -/
lemma width_at (hl : Ready l) (ht : t ∈ l.embedTables) {i : Nat} (hi : i < l.embed.length)
    (hcolumn : l.embed.getD i 0 = t.column) : (l.embed.map (columnWidth l))[i]? = some t.width := by
  rw [List.getD_eq_getElem?_getD, List.getElem?_eq_getElem hi, Option.getD_some] at hcolumn
  rw [List.getElem?_map, List.getElem?_eq_getElem hi, Option.map_some, hcolumn,
    columnWidth_table hl ht]

omit [Scalar α] in
lemma embedStart_lt (hl : Ready l) (ht : t ∈ l.embedTables) {i j : Nat} (hi : i < l.embed.length)
    (hcolumn : l.embed.getD i 0 = t.column) (hj : j < t.width) : embedStart l i + j < l.inputs := by
  have hwidth := width_at hl ht hi hcolumn
  obtain ⟨hlt, hget⟩ := List.getElem?_eq_some_iff.mp hwidth
  have hsum := List.sum_take_add_sum_drop (l.embed.map (columnWidth l)) i
  rw [List.drop_eq_getElem_cons hlt, List.sum_cons, hget] at hsum
  rw [hl.inputs, embedWidth_eq, embedStart, List.map_take]
  omega

/-- The derivatives by the embedding at a position. -/
lemma getD_embedPieces (hl : Ready l) (ht : t ∈ l.embedTables) (hp : Traced l p) {i j : Nat}
    (hi : i < l.embed.length) (hcolumn : l.embed.getD i 0 = t.column) (hj : j < t.width) :
    ((embedPieces l p).getD i []).getD j 0 = p.2.inputs.getD (embedStart l i + j) 0 := by
  unfold embedPieces embedStart
  rw [getD_segments (width_at hl ht hi hcolumn) hj, List.getD_eq_getElem?_getD, List.getElem?_drop,
    ← List.getD_eq_getElem?_getD, hp.dense, List.map_take, Nat.add_assoc]

/-- The gradient of a wide table, place by place. -/
theorem gradientOf_wide (hl : Ready l) (ht : t ∈ l.wideTables)
    (h : ∀ p ∈ traced, p.1.inputs.wide.length = l.wide.length) :
    gradientOf l traced (.wide t.column) [t.rows, t.width] = (tableOf t.rows t.width fun r _ =>
      total (traced.flatMap fun p => (wideReads l t r p.1).map fun _ => p.2.slope)).flatten := by
  have hwidths := width_of_hits fun p (_ : p ∈ traced) => width_of_wideHits hl ht p
  change (scatter t.rows t.width (traced.flatMap fun p =>
    Model.wideHits l t.column t.rows p.1 p.2)).flatten = _
  rw [scatter_eq_tableOf hwidths]
  refine congrArg List.flatten (tableOf_congr fun r _ j hj => congrArg total ?_)
  rw [List.filter_flatMap, List.map_flatMap]
  refine List.flatMap_congr fun p hp => ?_
  have hfirst : j = 0 := by
    rw [hl.wide_width t ht] at hj
    omega
  rw [wideHits_eq (h p hp), hitsAt_row, hfirst]
  rfl

/-- The gradient of an embedding table, place by place. -/
theorem gradientOf_embedding (hl : Ready l) (ht : t ∈ l.embedTables)
    (htraced : ∀ p ∈ traced, Traced l p)
    (h : ∀ p ∈ traced, p.1.inputs.embed.length = l.embed.length) :
    gradientOf l traced (.embedding t.column) [t.rows, t.width] = (tableOf t.rows t.width fun r j =>
      total (traced.flatMap fun p => (embedReads l t r p.1).map fun i =>
        p.2.inputs.getD (embedStart l i + j) 0)).flatten := by
  have hwidths := width_of_hits fun p hp => width_of_embedHits hl ht (htraced p hp)
  change (scatter t.rows t.width (traced.flatMap fun p =>
    Model.embedHits l t.column t.rows p.1 p.2)).flatten = _
  rw [scatter_eq_tableOf hwidths]
  refine congrArg List.flatten (tableOf_congr fun r _ j hj => congrArg total ?_)
  rw [List.filter_flatMap, List.map_flatMap]
  refine List.flatMap_congr fun p hp => ?_
  rw [embedHits_eq (h p hp), hitsAt_row]
  refine List.map_congr_left fun i hi => ?_
  obtain ⟨hlt, -, hcolumn⟩ := mem_positionsReading.mp hi
  exact getD_embedPieces hl ht (htraced p hp) hlt hcolumn hj

/-- The gradient of a wide table sums up to the derivatives by the logit: each record reads one of its
rows. -/
theorem total_gradientOf_wide [ExactSum α] (hl : Ready l) (hnodup : l.wide.Nodup)
    (ht : t ∈ l.wideTables) (hcolumn : t.column ∈ l.wide)
    (h : ∀ p ∈ traced, p.1.inputs.wide.length = l.wide.length) :
    total (gradientOf l traced (.wide t.column) [t.rows, t.width]) =
      total (traced.map (·.2.slope)) := by
  have hwidths := width_of_hits fun p (_ : p ∈ traced) => width_of_wideHits hl ht p
  have hfilled : 0 < t.rows := hl.filled t (List.mem_append_right _ ht)
  have hrows : ∀ hit ∈ traced.flatMap fun p => Model.wideHits l t.column t.rows p.1 p.2,
      hit.1 < t.rows := by
    intro hit hmem
    obtain ⟨p, -, hhit⟩ := List.mem_flatMap.mp hmem
    obtain ⟨q, -, rfl⟩ := List.mem_map.mp hhit
    exact resolve_lt hfilled q.2
  change total (scatter t.rows t.width (traced.flatMap fun p =>
    Model.wideHits l t.column t.rows p.1 p.2)).flatten = _
  rw [total_scatter hrows hwidths, List.map_flatMap, List.map_eq_flatMap]
  refine congrArg total (List.flatMap_congr fun p hp => ?_)
  obtain ⟨i, hi⟩ := hitsAt_single hnodup hcolumn p.1.inputs.wide fun _ => [p.2.slope]
  rw [wideHits_eq (h p hp), hi, List.map_singleton, total_singleton]

end Records

section Gathering

variable {α : Type} [Scalar α] {m : Model α} {t : TableSize} {i j : Nat}

/-- The inputs of the deep part at an embedding are those of the row that is read. -/
theorem getD_deepInputs (hl : Ready m.layout) (ht : t ∈ m.layout.embedTables) {r : Inputs α}
    (hdense : r.dense.length = m.layout.dense.length)
    (hembed : r.embed.length = m.layout.embed.length) (hi : i < m.layout.embed.length)
    (hcolumn : m.layout.embed.getD i 0 = t.column) (hj : j < t.width) :
    (m.deepInputs r).getD (embedStart m.layout i + j) 0 =
      ((m.embedRows t.column).getD (resolve t.rows (r.embed.getD i 0)) []).getD j 0 := by
  have hrows : (m.embedRows t.column).length = t.rows :=
    length_rows (shape_of_ready hl _ (mem_shapes_embed ht))
  have hread : ((m.layout.embed.zip r.embed).map fun p =>
      Model.lookup (m.embedRows p.1) p.2).getD i [] =
        Model.lookup (m.embedRows t.column) (r.embed.getD i 0) := by
    have hi' : i < r.embed.length := hembed ▸ hi
    rw [List.getD_eq_getElem?_getD, List.getElem?_eq_getElem hi, Option.getD_some] at hcolumn
    rw [List.getD_eq_getElem?_getD, List.getElem?_map, List.getElem?_eq_getElem
      (by rw [List.length_zip]; omega), Option.map_some, Option.getD_some, List.getElem_zip, hcolumn,
      List.getD_eq_getElem?_getD, List.getElem?_eq_getElem hi', Option.getD_some]
  calc (m.deepInputs r).getD (embedStart m.layout i + j) 0
      = ((m.layout.embed.zip r.embed).flatMap fun p => Model.lookup (m.embedRows p.1) p.2).getD
          ((((m.layout.embed.map (columnWidth m.layout)).take i).sum) + j) 0 := by
        unfold Model.deepInputs embedStart
        rw [Nat.add_assoc, List.getD_append_right _ _ _ _ (by omega), hdense, List.map_take,
          Nat.add_sub_cancel_left]
    _ = (((m.layout.embed.zip r.embed).map fun p =>
          Model.lookup (m.embedRows p.1) p.2).getD i []).getD j 0 := by
        rw [← getD_segments (width_at hl ht hi hcolumn) hj, ← lengths_of_lookups hl hembed,
          segments_flatMap]
    _ = _ := by
        rw [hread, Model.lookup, hrows]

end Gathering

section Payloads

variable {α : Type} (δ : Type) [Scalar α] [Scalar δ] [Precision α δ]

/-- The sum of numbers of records over positions, in wider numbers. -/
def sumOverReads (positions : Sample α → List Nat) (value : Sample α → Nat → α)
    (xs : List (Sample α)) : δ :=
  total (xs.flatMap fun s => (positions s).map fun i => Precision.widen (value s i))

/-- Gradients of tables that lie on the rows that records read. A row of a wide table has the sum of the
derivatives by the logit over the positions that read the row, and a row of an embedding table that of
the derivatives by the inputs of the deep part, which at these positions are the numbers of the row. An
index inside a table reads the row of its number, and any other index the last one. -/
structure OnReadRows (m : Model α) (xs : List (Sample α)) (g : Parameters δ) : Prop where
  wide : ∀ t ∈ m.layout.wideTables, (g.tensor (.wide t.column)).rows =
    tableOf t.rows 1 fun r _ =>
      sumOverReads δ (wideReads m.layout t r) (fun s _ => (m.sensitivity s).slope) xs
  embedded : ∀ t ∈ m.layout.embedTables, (g.tensor (.embedding t.column)).rows =
    tableOf t.rows t.width fun r j =>
      sumOverReads δ (embedReads m.layout t r)
        (fun s i => (m.sensitivity s).inputs.getD (embedStart m.layout i + j) 0) xs
  gathered : ∀ t ∈ m.layout.embedTables, ∀ s ∈ xs, ∀ r, ∀ i ∈ embedReads m.layout t r s,
    ∀ j < t.width, embedStart m.layout i + j < m.layout.inputs ∧
      (m.deepInputs s.inputs).getD (embedStart m.layout i + j) 0 =
        ((m.embedRows t.column).getD r []).getD j 0
  wide_unread : ∀ t ∈ m.layout.wideTables, ∀ r < t.rows,
    (∀ s ∈ xs, wideReads m.layout t r s = []) → (g.tensor (.wide t.column)).rows[r]? = some [0]
  embedded_unread : ∀ t ∈ m.layout.embedTables, ∀ r < t.rows,
    (∀ s ∈ xs, embedReads m.layout t r s = []) →
      (g.tensor (.embedding t.column)).rows[r]? = some (List.replicate t.width 0)
  wide_inside : ∀ t ∈ m.layout.wideTables, ∀ s ∈ xs, ∀ i < m.layout.wide.length,
    m.layout.wide.getD i 0 = t.column → 0 ≤ s.inputs.wide.getD i 0 → s.inputs.wide.getD i 0 < t.rows →
      ∀ r : Nat, i ∈ wideReads m.layout t r s ↔ r = s.inputs.wide.getD i 0
  embedded_inside : ∀ t ∈ m.layout.embedTables, ∀ s ∈ xs, ∀ i < m.layout.embed.length,
    m.layout.embed.getD i 0 = t.column → 0 ≤ s.inputs.embed.getD i 0 →
      s.inputs.embed.getD i 0 < t.rows →
        ∀ r : Nat, i ∈ embedReads m.layout t r s ↔ r = s.inputs.embed.getD i 0
  wide_outside : ∀ t ∈ m.layout.wideTables, ∀ s ∈ xs, ∀ i < m.layout.wide.length,
    m.layout.wide.getD i 0 = t.column →
      (s.inputs.wide.getD i 0 < 0 ∨ t.rows ≤ s.inputs.wide.getD i 0) →
        ∀ r, i ∈ wideReads m.layout t r s ↔ r = t.rows - 1
  embedded_outside : ∀ t ∈ m.layout.embedTables, ∀ s ∈ xs, ∀ i < m.layout.embed.length,
    m.layout.embed.getD i 0 = t.column →
      (s.inputs.embed.getD i 0 < 0 ∨ t.rows ≤ s.inputs.embed.getD i 0) →
        ∀ r, i ∈ embedReads m.layout t r s ↔ r = t.rows - 1
  bias : ∀ t ∈ m.layout.wideTables,
    (g.tensor .wideBias).data = [total (g.tensor (.wide t.column)).data]

variable {δ} {m : Model α} {xs us : List (Sample α)} {iteration : Int} {name : ParamName}
  {shape : List Nat} {rows width : Nat}

omit [Scalar α] in
lemma sumOverReads_none {positions : Sample α → List Nat} (value : Sample α → Nat → α)
    (h : ∀ s ∈ xs, positions s = []) : sumOverReads δ positions value xs = 0 := by
  have hnone : (xs.flatMap fun s => (positions s).map fun i => Precision.widen (value s i)) =
      ([] : List δ) := by
    refine List.flatMap_eq_nil_iff.mpr fun s hs => ?_
    rw [h s hs, List.map_nil]
  rw [sumOverReads, hnone]
  rfl

lemma tensor_payloadOf (hl : Ready m.layout) (h : (name, shape) ∈ m.layout.shapes) :
    (payloadOf δ m iteration xs us).gradients.tensor name =
      (gradientTensor m xs (name, shape)).map Precision.widen := by
  refine tensor_of_mem (names_payloadOf hl.distinct) ?_
  rw [gradients_payloadOf]
  exact List.mem_map_of_mem h

lemma data_payloadOf (hl : Ready m.layout) (hx : AllTraced m xs)
    (h : (name, shape) ∈ m.layout.shapes) :
    ((payloadOf δ m iteration xs us).gradients.tensor name).data =
      (gradientOf m.layout (xs.map fun s => (s, m.sensitivity s)) name shape).map
        Precision.widen := by
  rw [tensor_payloadOf hl h, gradientTensor,
    ofList_eq (length_gradientOf hl (shapeOf_of_mem h) (forall_traced hx))]
  rfl

/-- The rows of the gradient of a table. -/
lemma rows_payloadOf (hl : Ready m.layout) (hx : AllTraced m xs)
    (h : (name, [rows, width]) ∈ m.layout.shapes) {f : Nat → Nat → α}
    (hf : gradientOf m.layout (xs.map fun s => (s, m.sensitivity s)) name [rows, width] =
      (tableOf rows width f).flatten) :
    ((payloadOf δ m iteration xs us).gradients.tensor name).rows =
      tableOf rows width fun r j => Precision.widen (f r j) := by
  have hshape : ((payloadOf δ m iteration xs us).gradients.tensor name).shape = [rows, width] := by
    rw [tensor_payloadOf hl h]
    exact shape_gradientTensor m xs _
  rw [rows_of_shape hshape, data_payloadOf hl hx h, hf, List.map_flatten, map_tableOf,
    pieces_flatten (isTable_tableOf rows width _)]

variable [ExactSum α] [ExactSum δ] [ExactWidening α δ]

lemma widen_reads (positions : Sample α → List Nat) (value : Sample α → Nat → α) :
    (Precision.widen (total (xs.flatMap fun s => (positions s).map (value s))) : δ) =
      sumOverReads δ positions value xs := by
  rw [widen_total, List.map_flatMap]
  simp only [List.map_map]
  rfl

/-- The gradients of the tables in the payload of records lie on the rows that these read. -/
theorem onReadRows_payloadOf (hl : Ready m.layout) (hnodup : m.layout.wide.Nodup)
    (hcolumns : ∀ t ∈ m.layout.wideTables, t.column ∈ m.layout.wide) {d : Dataset α}
    (hd : Fitting m.layout d) :
    OnReadRows δ m d.samples (payloadOf δ m iteration d.samples us).gradients := by
  have htraced : AllTraced m d.samples := allTraced_of_fitting hl hd
  have hwideLengths : ∀ p ∈ d.samples.map fun s => (s, m.sensitivity s),
      p.1.inputs.wide.length = m.layout.wide.length := List.forall_mem_map.mpr hd.wide
  have hembedLengths : ∀ p ∈ d.samples.map fun s => (s, m.sensitivity s),
      p.1.inputs.embed.length = m.layout.embed.length := List.forall_mem_map.mpr hd.embed
  have hwide : ∀ t ∈ m.layout.wideTables,
      ((payloadOf δ m iteration d.samples us).gradients.tensor (.wide t.column)).rows =
        tableOf t.rows t.width fun r _ =>
          sumOverReads δ (wideReads m.layout t r) (fun s _ => (m.sensitivity s).slope) d.samples := by
    intro t ht
    rw [rows_payloadOf hl htraced (mem_shapes_wide ht) (gradientOf_wide hl ht hwideLengths)]
    refine tableOf_congr fun r _ j _ => ?_
    rw [List.flatMap_map]
    exact widen_reads _ _
  have hembedded : ∀ t ∈ m.layout.embedTables,
      ((payloadOf δ m iteration d.samples us).gradients.tensor (.embedding t.column)).rows =
        tableOf t.rows t.width fun r j => sumOverReads δ (embedReads m.layout t r)
          (fun s i => (m.sensitivity s).inputs.getD (embedStart m.layout i + j) 0) d.samples := by
    intro t ht
    rw [rows_payloadOf hl htraced (mem_shapes_embed ht)
      (gradientOf_embedding hl ht (forall_traced htraced) hembedLengths)]
    refine tableOf_congr fun r _ j _ => ?_
    rw [List.flatMap_map]
    exact widen_reads _ _
  refine ⟨fun t ht => ?_, hembedded, fun t ht s hs r i hi j hj => ?_, fun t ht r hr hnone => ?_,
    fun t ht r hr hnone => ?_, fun t _ s _ i hi hcolumn hleast hmost r => ?_,
    fun t _ s _ i hi hcolumn hleast hmost r => ?_, fun t _ s _ i hi hcolumn hout r => ?_,
    fun t _ s _ i hi hcolumn hout r => ?_, fun t ht => ?_⟩
  · rw [hwide t ht, hl.wide_width t ht]
  · obtain ⟨hlt, hrow, hcolumn⟩ := mem_positionsReading.mp hi
    refine ⟨embedStart_lt hl ht hlt hcolumn hj, ?_⟩
    rw [getD_deepInputs hl ht (hd.dense s hs) (hd.embed s hs) hlt hcolumn hj, hrow]
  · rw [hwide t ht, getElem?_tableOf_zero hr fun j => sumOverReads_none _ hnone,
      hl.wide_width t ht]
    rfl
  · rw [hembedded t ht, getElem?_tableOf_zero hr fun j => sumOverReads_none _ hnone]
  · exact mem_positionsReading_inside hi hcolumn hleast hmost
  · exact mem_positionsReading_inside hi hcolumn hleast hmost
  · exact mem_positionsReading_outside hi hcolumn hout
  · exact mem_positionsReading_outside hi hcolumn hout
  · rw [data_payloadOf hl htraced List.mem_cons_self, data_payloadOf hl htraced (mem_shapes_wide ht),
      ← widen_total, total_gradientOf_wide hl hnodup ht (hcolumns t ht) hwideLengths]
    rfl

end Payloads

section Workers

variable {α δ : Type} [Scalar α] [Scalar δ] [Precision α δ] [ExactSum α] [ExactSum δ]
  [ExactWidening α δ] {columns : List ColumnRecord} {options : ModelOptions} {c : ModelConfig}
  {l : Layout} {weights : Parameters α} {train : Dataset α} {validation : Option (Dataset α)}
  {size iteration : Int}

/-- A worker sends gradients of tables that lie on the rows that its records read, whatever their
indices are. A row that none of them reads has a gradient of zeros, indices outside a table read its
last row, and the gradients of each wide table sum up to that of the bias. -/
theorem gradients_on_read_rows (hmake : ModelConfig.make columns options = .ok c)
    (hlayout : c.layout = .ok l) (hweights : Parameters.check l.shapes weights = .ok ())
    (htrain : Fitting l train) (hvalidation : ∀ d ∈ validation, Fitting l d) (hsize : 0 < size) :
    ∃ p : Payload δ, sends δ c weights iteration (train, validation) size = .ok p ∧
      OnReadRows δ (Model.ofParameters l weights) train.samples p.gradients := by
  have hl := ready_of_layout hlayout
  have hwide : l.wide = c.wide := (ids_of_layout hlayout).2.2
  exact ⟨_, sends_eq hlayout hweights htrain hvalidation hsize,
    onReadRows_payloadOf (m := Model.ofParameters l weights) hl (hwide ▸ wide_nodup_of_make hmake)
      (wideColumn_of_make (plan_eq_ok.mp hlayout).1) htrain⟩

end Workers

section Sample

/-- The first record reads the second row of the embedding by an index outside the table and the first
row by one inside. The second record reads the rows the other way round. -/
def strayRecords : Sample ℚ × Sample ℚ :=
  (⟨⟨[], [7, 0], [-1]⟩, 1, 2⟩, ⟨⟨[], [0, 1], [1]⟩, 0, 1⟩)

def strays : Dataset ℚ :=
  ⟨0, 2, 1, [strayRecords.1, strayRecords.2]⟩

def strayWeights : Parameters ℚ :=
  twiceLayout.shapes.map fun p => (p.1, Tensor.replicate p.2 (1 / 2))

/-- The derivatives of a record in a model that embeds its column twice. -/
def straySensitivity (s : Sample ℚ) : Sensitivity ℚ :=
  (Model.ofParameters twiceLayout strayWeights).sensitivity s

lemma fitting_strays : Fitting twiceLayout strays where
  denseWidth := rfl
  embedWidth := rfl
  wideWidth := rfl
  dense := List.forall_mem_cons.mpr ⟨rfl, List.forall_mem_singleton.mpr rfl⟩
  embed := List.forall_mem_cons.mpr ⟨rfl, List.forall_mem_singleton.mpr rfl⟩
  wide := List.forall_mem_cons.mpr ⟨rfl, List.forall_mem_singleton.mpr rfl⟩

/-- Two records in batches of one. Each row of the embedding table has the derivatives at one position of
each record; of the wide table, both records read the second row. -/
theorem gradients_on_read_rows_twice : ∃ p : Payload ℚ,
    sends ℚ twiceConfig strayWeights 0 (strays, none) 1 = .ok p ∧
    (p.gradients.tensor (.embedding 0)).rows =
      [[(straySensitivity strayRecords.1).inputs.getD 1 0 +
          (straySensitivity strayRecords.2).inputs.getD 0 0],
        [(straySensitivity strayRecords.1).inputs.getD 0 0 +
          (straySensitivity strayRecords.2).inputs.getD 1 0]] ∧
    (p.gradients.tensor (.wide 0)).rows =
      [[0], [(straySensitivity strayRecords.1).slope + (straySensitivity strayRecords.2).slope]] ∧
    (p.gradients.tensor .wideBias).data = [total (p.gradients.tensor (.wide 0)).data] := by
  have hweights : Parameters.check twiceLayout.shapes strayWeights = .ok () :=
    check_of_perm (List.Perm.refl _) rfl (by decide)
  obtain ⟨p, hsends, hread⟩ : ∃ p : Payload ℚ,
      sends ℚ twiceConfig strayWeights 0 (strays, none) 1 = .ok p ∧
        OnReadRows ℚ (Model.ofParameters twiceLayout strayWeights) strays.samples p.gradients :=
    gradients_on_read_rows make_twice layout_twice hweights fitting_strays
      (fun _ h => by cases h) (by decide)
  have hembedded := hread.embedded ⟨0, 2, 1⟩ List.mem_cons_self
  have hwide := hread.wide ⟨0, 2, 1⟩ List.mem_cons_self
  have hpair : ∀ x y : ℚ, total [x, y] = x + y := fun x y => by
    rw [total_cons, total_singleton]
  refine ⟨p, hsends, ?_, ?_, hread.bias ⟨0, 2, 1⟩ List.mem_cons_self⟩
  · rw [hembedded, ← hpair, ← hpair]
    rfl
  · rw [hwide, ← hpair]
    rfl

end Sample

end WideDeep.Proofs
