import Mathlib.Tactic
import WideDeep.Proofs.AssembledFrames

/-!
# Rows of a frame

The columns of a frame have one value for each of its records, so a frame can be read row by row, and
its inputs are those of its rows. Leaving out records keeps the rows of the others in their order.
-/

namespace WideDeep.Proofs

section Places

variable {α : Type} {keep : List Bool} {i : Nat}

/-- The places of the records that are kept. -/
def keptPlaces (keep : List Bool) : List Nat :=
  (List.range keep.length).filter (keep.getD · false)

lemma mem_keptPlaces : i ∈ keptPlaces keep ↔ keep[i]? = some true := by
  unfold keptPlaces
  rw [List.mem_filter, List.mem_range, List.getD_eq_getElem?_getD]
  by_cases hi : i < keep.length
  · simp [hi]
  · simp [hi]

lemma lt_of_mem_keptPlaces (h : i ∈ keptPlaces keep) : i < keep.length :=
  List.mem_range.mp (List.mem_of_mem_filter h)

lemma keptPlaces_increasing (keep : List Bool) : (keptPlaces keep).Pairwise (· < ·) :=
  List.pairwise_lt_range.filter _

lemma map_getD_range (xs : List α) (d : α) : (List.range xs.length).map (xs.getD · d) = xs := by
  refine List.ext_getElem (by simp) fun i hi hi' => ?_
  simp [hi']

lemma zip_eq_map {β : Type} {xs : List α} {ys : List β} (h : xs.length = ys.length) (d : α) (e : β) :
    xs.zip ys = (List.range xs.length).map fun i => (xs.getD i d, ys.getD i e) := by
  rw [← List.zip_map', map_getD_range, h, map_getD_range]

/-- What is left of the values of a column. -/
def keptOf (keep : List Bool) (xs : List α) : List α :=
  ((xs.zip keep).filter (·.2)).map (·.1)

/-- Of the values of a column those at the kept places are left. -/
lemma keptOf_eq_map {xs : List α} (h : xs.length = keep.length) (d : α) :
    keptOf keep xs = (keptPlaces keep).map (xs.getD · d) := by
  unfold keptOf keptPlaces
  rw [zip_eq_map h d false, h, List.filter_map, List.map_map]
  rfl

lemma length_keptPlaces (keep : List Bool) : (keptPlaces keep).length = (keep.filter id).length := by
  conv_rhs => rw [← map_getD_range keep false, List.filter_map, List.length_map]
  rfl

end Places

section Cells

variable {f : Frame} {keep : List Bool} {key : Option String} {i : Nat}

/-- Frames that have a value of each column for each record. -/
def Rectangular (f : Frame) : Prop :=
  ∀ c ∈ f.columns, c.2.length = f.size

/-- The value of a record under a key. -/
def cellAt (f : Frame) (i : Nat) (key : Option String) : Raw :=
  (f.column key).getD i .missing

lemma length_storeColumn (storage : Storage) (cells : List (Option Raw)) :
    (storeColumn storage cells).length = cells.length := by
  unfold storeColumn
  by_cases hreal : storage.makesReal cells = true
  · simp [hreal]
  · simp [hreal]

/-- Frames of records are rectangular. -/
theorem rectangular_ofRecords (storage : Storage) (names : Option (List String))
    (records : List RawRecord) : Rectangular (Frame.ofRecords storage names records) := by
  intro c hc
  obtain ⟨name, -, rfl⟩ := List.mem_map.mp hc
  rw [length_storeColumn, List.length_map]
  rfl

lemma length_of_lookup (h : Rectangular f) {name : String} {values : List Raw}
    (hvalues : f.columns.lookup name = some values) : values.length = f.size := by
  obtain ⟨before, after, hsplit, -⟩ := List.lookup_eq_some_iff.mp hvalues
  refine h (name, values) ?_
  rw [hsplit]
  exact List.mem_append_right before List.mem_cons_self

lemma length_column (h : Rectangular f) (key : Option String) : (f.column key).length = f.size := by
  unfold Frame.column
  cases hfound : key.bind fun n => f.columns.lookup n with
  | none => exact List.length_replicate
  | some values =>
    obtain ⟨name, -, hlookup⟩ := Option.bind_eq_some_iff.mp hfound
    exact length_of_lookup h hlookup

lemma rectangular_filter (h : Rectangular f) (hkeep : keep.length = f.size) :
    Rectangular (f.filter keep) := by
  intro c hc
  obtain ⟨column, hcolumn, rfl⟩ := List.mem_map.mp hc
  have hlength := congrArg List.length (keptOf_eq_map ((h column hcolumn).trans hkeep.symm) .missing)
  rw [List.length_map, length_keptPlaces] at hlength
  exact hlength

lemma size_filter (f : Frame) (keep : List Bool) : (f.filter keep).size = (keptPlaces keep).length :=
  (length_keptPlaces keep).symm

lemma lookup_filter (f : Frame) (keep : List Bool) (name : String) :
    (f.filter keep).columns.lookup name =
      (f.columns.lookup name).map (keptOf keep) := by
  rw [lookup_eq_filter, lookup_eq_filter]
  unfold Frame.filter
  dsimp only
  rw [List.filter_map, List.head?_map, Option.map_map, Option.map_map]
  rfl

lemma keptOf_replicate {n : Nat} (hkeep : keep.length = n) (v : Raw) :
    keptOf keep (List.replicate n v) = List.replicate (keep.filter id).length v := by
  rw [keptOf_eq_map (List.length_replicate.trans hkeep.symm) v, ← length_keptPlaces,
    List.eq_replicate_iff]
  refine ⟨List.length_map _, fun w hw => ?_⟩
  obtain ⟨i, hi, rfl⟩ := List.mem_map.mp hw
  have hlt := hkeep ▸ lt_of_mem_keptPlaces hi
  simp [hlt]

/-- What is left of a column are its values at the kept places. -/
lemma column_filter (h : Rectangular f) (hkeep : keep.length = f.size) (key : Option String) :
    (f.filter keep).column key = (keptPlaces keep).map fun i => cellAt f i key := by
  have hkept : (f.filter keep).column key = keptOf keep (f.column key) := by
    unfold Frame.column
    cases key with
    | none => exact (keptOf_replicate hkeep .missing).symm
    | some name =>
      rw [Option.bind_some, Option.bind_some, lookup_filter]
      cases f.columns.lookup name with
      | none => exact (keptOf_replicate hkeep .missing).symm
      | some values => rfl
  rw [hkept, keptOf_eq_map ((length_column h key).trans hkeep.symm) .missing]
  rfl

/-- The rows of a frame, each by the values under its keys. -/
def rowsOf (f : Frame) : List (Option String → Raw) :=
  (List.range f.size).map (cellAt f)

/-- The rows that are left are those at the kept places. -/
theorem rowsOf_filter (h : Rectangular f) (hkeep : keep.length = f.size) :
    rowsOf (f.filter keep) = (keptPlaces keep).map (cellAt f) := by
  unfold rowsOf
  rw [size_filter]
  refine List.ext_getElem (by simp) fun j hj hj' => ?_
  have hlt : j < (keptPlaces keep).length := by simpa using hj'
  rw [List.getElem_map, List.getElem_map, List.getElem_range]
  funext key
  conv_lhs => unfold cellAt
  rw [column_filter h hkeep, List.getD_eq_getElem?_getD, List.getElem?_map,
    List.getElem?_eq_getElem hlt]
  rfl

end Cells

section Rows

variable {a : Assembler} {f : Frame} {keep : List Bool} {rows : List (Inputs Float32)}

/-- A row of which all dense values can be normalized. -/
def RowUsable (a : Assembler) (row : Option String → Raw) : Prop :=
  ∀ id ∈ a.dense, ∃ x, a.normalized id (row (keyAt a id)) = .ok x

lemma column_eq_map (h : Rectangular f) (key : Option String) :
    f.column key = (rowsOf f).map fun row => row key := by
  unfold rowsOf
  rw [List.map_map, ← length_column h key]
  exact (map_getD_range _ _).symm

lemma map_cells {β : Type} (h : Rectangular f) {i : Nat} (hi : i < f.size) (columns : List Int)
    (g : Int → Raw → β) (d : β) :
    ((columns.map fun id => (f.column (keyAt a id)).map (g id)).map fun c => c.getD i d) =
      columns.map fun id => g id (cellAt f i (keyAt a id)) := by
  rw [List.map_map]
  refine List.map_congr_left fun id _ => ?_
  have hlt : i < (f.column (keyAt a id)).length := by rwa [length_column h]
  simp [cellAt, List.getD_eq_getElem?_getD, hlt]

lemma frameInputs_of_rows (h : Rectangular f) (hnamed : Named a) (hclear : Clear a f)
    (husable : ∀ row ∈ rowsOf f, RowUsable a row) :
    a.frameInputs f = .ok ((rowsOf f).map (inputsOf a)) := by
  have hcolumn : ∀ id ∈ a.dense ++ a.embed ++ a.wide, a.columnOf f id = .ok (f.column (keyAt a id)) :=
    fun id hid => (columnOf_eq_ok (hnamed id hid)).mpr ⟨hclear id hid, rfl⟩
  have hdense : a.dense.mapM (a.denseColumn f) =
      .ok (a.dense.map fun id => (f.column (keyAt a id)).map (denseValue a id)) := by
    refine mapM_ok_of_forall fun id hid => ?_
    unfold Assembler.denseColumn
    rw [hcolumn id (mem_used (Or.inl hid)), ok_bind]
    refine mapM_ok_of_forall fun v hv => normalized_eq ?_
    rw [column_eq_map h] at hv
    obtain ⟨row, hrow, rfl⟩ := List.mem_map.mp hv
    exact husable row hrow id hid
  have hindex : ∀ id ∈ a.dense ++ a.embed ++ a.wide,
      a.indexColumn f id = .ok ((f.column (keyAt a id)).map (a.numberOf id)) := by
    intro id hid
    unfold Assembler.indexColumn
    rw [hcolumn id hid]
    rfl
  have hembed := mapM_ok_of_forall fun id hid => hindex id (mem_used (Or.inr (Or.inl hid)))
  have hwide := mapM_ok_of_forall fun id hid => hindex id (mem_used (Or.inr (Or.inr hid)))
  unfold Assembler.frameInputs rowsOf
  rw [hdense, ok_bind, hembed, ok_bind, hwide, ok_bind, List.map_map]
  refine congrArg Except.ok (List.map_congr_left fun i hi => ?_)
  have hlt := List.mem_range.mp hi
  simp only [map_cells h hlt, inputsOf, Function.comp_apply]

/-- When the inputs of a frame can be computed, and what they are. -/
theorem frameInputs_eq_rows (h : Rectangular f) :
    a.frameInputs f = .ok rows ↔ Named a ∧ Clear a f ∧ (∀ row ∈ rowsOf f, RowUsable a row) ∧
      rows = (rowsOf f).map (inputsOf a) := by
  constructor
  · intro hrows
    obtain ⟨dense, hdense, hrest⟩ := bind_eq_ok.mp hrows
    obtain ⟨embed, hembed, hrest⟩ := bind_eq_ok.mp hrest
    obtain ⟨wide, hwide, -⟩ := bind_eq_ok.mp hrest
    have hnamed : Named a := named_of_steps (fun _ _ => key_of_column) (fun _ _ => key_of_column)
      (fun _ _ => key_of_column) hdense hembed hwide
    have hclear := clear_of_frameInputs hnamed hrows
    have husable : ∀ row ∈ rowsOf f, RowUsable a row := by
      intro row hrow id hid
      obtain ⟨y, hy⟩ := mapM_step_ok hdense id hid
      obtain ⟨values, hvalues, hy⟩ := bind_eq_ok.mp hy
      obtain ⟨-, rfl⟩ := (columnOf_eq_ok (hnamed id (mem_used (Or.inl hid)))).mp hvalues
      rw [column_eq_map h] at hy
      exact mapM_step_ok hy _ (List.mem_map_of_mem hrow)
    rw [frameInputs_of_rows h hnamed hclear husable] at hrows
    exact ⟨hnamed, hclear, husable, (Except.ok.inj hrows).symm⟩
  · rintro ⟨hnamed, hclear, husable, rfl⟩
    exact frameInputs_of_rows h hnamed hclear husable

/-- The inputs of the records that are kept are those of their rows in the whole frame. -/
theorem frameInputs_filter (h : Rectangular f) (hkeep : keep.length = f.size) :
    a.frameInputs (f.filter keep) = .ok rows ↔ Named a ∧ Clear a f ∧
      (∀ i ∈ keptPlaces keep, RowUsable a (cellAt f i)) ∧
      rows = (keptPlaces keep).map fun i => inputsOf a (cellAt f i) := by
  rw [frameInputs_eq_rows (rectangular_filter h hkeep), clear_filter, rowsOf_filter h hkeep,
    List.forall_mem_map, List.map_map]
  rfl

end Rows

end WideDeep.Proofs
