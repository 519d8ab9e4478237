import Mathlib.Tactic
import WideDeep.Assembler
import WideDeep.Proofs.FrameColumns
import WideDeep.Proofs.Results

/-!
# Inputs of a batch

A batch gives inputs if each of its records does on its own, and the inputs of a record differ only
where a large integer has become a floating-point number that means something else to its column.
-/

namespace WideDeep.Proofs
open Binary

variable {a : Assembler} {storage : Storage} {r : RawRecord} {records : List RawRecord} {id : Int}

section Readings

variable {v w : Raw}

lemma bin?_ok_iff (c : ColumnStats) (h : v.number? = w.number?) :
    (∃ x, c.bin? v = .ok x) ↔ ∃ x, c.bin? w = .ok x := by
  unfold ColumnStats.bin? ColumnStats.binWith?
  cases c.kind with
  | numerical => simp only [Binning.numerical?, h]
  | categorical => simp
  | hybrid => simp only [Binning.numerical?, map_ok_iff, h]

/-- Whether a value can be normalized depends on what it is as a number. -/
theorem normalize_ok_iff (c : ColumnStats) (kind : NormKind) (h : v.number? = w.number?) :
    (∃ x, c.normalize kind v = .ok x) ↔ ∃ x, c.normalize kind w = .ok x := by
  have hevidence : ∀ e, (∃ x, c.evidenceOf e v = .ok x) ↔ ∃ x, c.evidenceOf e w = .ok x := by
    intro e
    unfold ColumnStats.evidenceOf
    split
    · simp
    · simp only [map_ok_iff]
      exact bin?_ok_iff c h
  unfold ColumnStats.normalize
  cases kind.method with
  | score => simp only [map_ok_iff, h]
  | evidence e => simp only [map_ok_iff, hevidence]
  | evidenceScore e => simp only [map_ok_iff, hevidence]

lemma normalized_ok_iff (h : v.number? = w.number?) :
    (∃ x, a.normalized id v = .ok x) ↔ ∃ x, a.normalized id w = .ok x := by
  unfold Assembler.normalized
  cases a.feature? id with
  | none => simp
  | some f => exact normalize_ok_iff f.stats a.norm h

/-- What a column makes of a value depends on the value as a number and as a category. -/
structure Alike (v w : Raw) : Prop where
  number : v.number? = w.number?
  key : v.key? = w.key?

namespace Alike

lemma find?_eq (h : Alike v w) (index : CategoryIndex) : index.find? v = index.find? w := by
  unfold CategoryIndex.find?
  rw [h.key]

lemma number_eq (h : Alike v w) (index : CategoryIndex) : index.number v = index.number w := by
  unfold CategoryIndex.number
  rw [h.find?_eq]

lemma binWith?_eq (h : Alike v w) (c : ColumnStats) (index : CategoryIndex) :
    c.binWith? index v = c.binWith? index w := by
  unfold ColumnStats.binWith? Binning.numerical?
  simp only [h.number, h.find?_eq]

lemma evidenceOf_eq (h : Alike v w) (c : ColumnStats) (e : EvidenceKind) :
    c.evidenceOf e v = c.evidenceOf e w := by
  unfold ColumnStats.evidenceOf ColumnStats.bin?
  rw [h.binWith?_eq]

lemma normalize_eq (h : Alike v w) (c : ColumnStats) (kind : NormKind) :
    c.normalize kind v = c.normalize kind w := by
  unfold ColumnStats.normalize
  simp only [h.number, h.evidenceOf_eq]

end Alike

lemma numberOf_congr (h : Alike v w) : a.numberOf id v = a.numberOf id w := by
  unfold Assembler.numberOf
  cases a.feature? id with
  | none => rfl
  | some f => exact congrArg Int.ofNat (h.number_eq f.index)

lemma normalized_congr (h : Alike v w) : a.normalized id v = a.normalized id w := by
  unfold Assembler.normalized
  cases a.feature? id with
  | none => rfl
  | some f => exact h.normalize_eq f.stats a.norm

end Readings

section Holding

/-- An integer of a record stands in the column of its key. -/
lemma mem_cellsOf {key : Option String} (hr : r ∈ records) {n : Int} (hn : r.value key = .int n) :
    some (.int n) ∈ cellsOf records key := by
  refine List.mem_map.mpr ⟨r, hr, ?_⟩
  unfold RawRecord.value at hn
  cases hcell : (key.bind fun k => r.lookup k) with
  | none => simp [hcell] at hn
  | some v => simpa [hcell] using hn

/-- What a record holds is the same number in a frame. -/
lemma number?_inFrame (hstorage : Documented storage) (hr : r ∈ records) (key : Option String) :
    (inFrame storage records key (r.value key)).number? = (r.value key).number? := by
  unfold inFrame
  by_cases hreal : storage.makesReal (cellsOf records key) = true
  · rw [if_pos hreal]
    exact number?_toReal fun n hn => hstorage.finite _ n hreal (mem_cellsOf hr hn)
  · rw [if_neg hreal]

/-- A reading of a value is kept unless the value is an integer of more than 53 bits that becomes a
floating-point number with another reading. -/
def KeptBy {β : Type} (storage : Storage) (records : List RawRecord) (key : Option String)
    (read : Raw → β) (v : Raw) : Prop :=
  ∀ n, v = .int n → 2 ^ 53 ≤ n.natAbs → storage.makesReal (cellsOf records key) = true →
    read (.real (doubleOfInt n)) = read (.int n)

/-- When a frame of records changes what is read from a value. -/
theorem inFrame_eq_iff {β : Type} {read : Raw → β} (hread : ∀ v w, Alike v w → read v = read w)
    (key : Option String) (v : Raw) :
    read (inFrame storage records key v) = read v ↔ KeptBy storage records key read v := by
  unfold inFrame
  by_cases hreal : storage.makesReal (cellsOf records key) = true
  · rw [if_pos hreal]
    constructor
    · intro h n hn _ _
      subst hn
      exact h
    · intro h
      by_cases hlarge : ∃ n, v = .int n ∧ 2 ^ 53 ≤ n.natAbs
      · obtain ⟨n, rfl, hn⟩ := hlarge
        exact h n rfl hn hreal
      · have hsmall : ∀ n, v = .int n → n.natAbs < 2 ^ 53 := by
          intro n hn
          by_contra hge
          exact hlarge ⟨n, hn, not_lt.mp hge⟩
        refine hread _ _ ⟨number?_toReal fun n hn => ?_, key?_toReal hsmall⟩
        exact isFinite_doubleOfInt ((hsmall n hn).trans (by decide))
  · rw [if_neg hreal]
    exact ⟨fun _ n _ _ hmade => absurd hmade hreal, fun _ => rfl⟩

/-- A value that stays as it is whatever the storage: an integer of at most 53 bits or no integer, or a
value of a column of integers alone or of one with a truth value or a text. -/
def Exact (records : List RawRecord) (key : Option String) (v : Raw) : Prop :=
  (∀ n, v = .int n → n.natAbs < 2 ^ 53) ∨
    (CellKind.gap ∉ kindsOf (cellsOf records key) ∧ CellKind.real ∉ kindsOf (cellsOf records key)) ∨
    CellKind.truth ∈ kindsOf (cellsOf records key) ∨ CellKind.other ∈ kindsOf (cellsOf records key)

lemma keptBy_of_exact {β : Type} {read : Raw → β} {key : Option String} {v : Raw}
    (hstorage : Documented storage) (h : Exact records key v) :
    KeptBy storage records key read v := by
  intro n hn hlarge hmade
  rcases h with hsmall | ⟨hgap, hreal⟩ | hmixed
  · exact absurd hlarge (not_le.mpr (hsmall n hn))
  · rw [hstorage.exact _ hgap hreal] at hmade
    cases hmade
  · rw [hstorage.mixed _ hmixed] at hmade
    cases hmade

end Holding

/-- The key under which records hold a column, if there is one. -/
def keyAt (a : Assembler) (id : Int) : Option String :=
  ((a.keyOf id).toOption).join

/-- All columns have names that can be looked up. -/
def Named (a : Assembler) : Prop :=
  ∀ id ∈ a.dense ++ a.embed ++ a.wide, a.keyOf id = .ok (keyAt a id)

/-- A record whose dense values can be normalized. -/
def Usable (a : Assembler) (r : RawRecord) : Prop :=
  ∀ id ∈ a.dense, ∃ x, a.normalized id (r.value (keyAt a id)) = .ok x

/-- The normalized value of a dense column, and zero if there is none. -/
def denseValue (a : Assembler) (id : Int) (v : Raw) : Float32 :=
  (a.normalized id v).toOption.getD 0

/-- The inputs for the values under the keys of the columns. -/
def inputsOf (a : Assembler) (value : Option String → Raw) : Inputs Float32 where
  dense := a.dense.map fun id => denseValue a id (value (keyAt a id))
  embed := a.embed.map fun id => a.numberOf id (value (keyAt a id))
  wide := a.wide.map fun id => a.numberOf id (value (keyAt a id))

/-- The values of a record as a frame of records holds them. -/
def heldIn (storage : Storage) (records : List RawRecord) (r : RawRecord) (key : Option String) :
    Raw :=
  inFrame storage records key (r.value key)

section Records

lemma keyOf_eq {key : Option String} (h : a.keyOf id = .ok key) : a.keyOf id = .ok (keyAt a id) := by
  have hkey : keyAt a id = key := by
    unfold keyAt
    rw [h]
    rfl
  rw [hkey, h]

lemma key_of_bind {β : Type} {g : Option String → Except Error β} {y : β}
    (h : (a.keyOf id >>= g) = .ok y) : ∃ key, a.keyOf id = .ok key := by
  obtain ⟨key, hkey, -⟩ := bind_eq_ok.mp h
  exact ⟨key, hkey⟩

/-- Columns that are gone through by steps that need something have it. -/
lemma forall_used_of_steps {P : Int → Prop} {β γ δ : Type} {f : Int → Except Error β}
    {g : Int → Except Error γ} {h : Int → Except Error δ} {dense : List β} {embed : List γ}
    {wide : List δ} (hf : ∀ id y, f id = .ok y → P id) (hg : ∀ id y, g id = .ok y → P id)
    (hh : ∀ id y, h id = .ok y → P id) (hdense : a.dense.mapM f = .ok dense)
    (hembed : a.embed.mapM g = .ok embed) (hwide : a.wide.mapM h = .ok wide) :
    ∀ id ∈ a.dense ++ a.embed ++ a.wide, P id := by
  intro id hid
  simp only [List.mem_append, or_assoc] at hid
  rcases hid with hid | hid | hid
  · obtain ⟨y, hy⟩ := mapM_step_ok hdense id hid
    exact hf id y hy
  · obtain ⟨y, hy⟩ := mapM_step_ok hembed id hid
    exact hg id y hy
  · obtain ⟨y, hy⟩ := mapM_step_ok hwide id hid
    exact hh id y hy

/-- Columns that are gone through by steps that look up their names have names. -/
lemma named_of_steps {β γ δ : Type} {f : Int → Except Error β} {g : Int → Except Error γ}
    {h : Int → Except Error δ} {dense : List β} {embed : List γ} {wide : List δ}
    (hf : ∀ id y, f id = .ok y → ∃ key, a.keyOf id = .ok key)
    (hg : ∀ id y, g id = .ok y → ∃ key, a.keyOf id = .ok key)
    (hh : ∀ id y, h id = .ok y → ∃ key, a.keyOf id = .ok key)
    (hdense : a.dense.mapM f = .ok dense) (hembed : a.embed.mapM g = .ok embed)
    (hwide : a.wide.mapM h = .ok wide) : Named a := by
  intro id hid
  obtain ⟨key, hkey⟩ := forall_used_of_steps hf hg hh hdense hembed hwide id hid
  exact keyOf_eq hkey

lemma mem_used (hid : id ∈ a.dense ∨ id ∈ a.embed ∨ id ∈ a.wide) :
    id ∈ a.dense ++ a.embed ++ a.wide := by
  simp only [List.mem_append, or_assoc]
  exact hid

lemma normalized_eq {v : Raw} (h : ∃ x, a.normalized id v = .ok x) :
    a.normalized id v = .ok (denseValue a id v) := by
  obtain ⟨x, hx⟩ := h
  unfold denseValue
  rw [hx]
  rfl

lemma denseInput_eq (h : a.keyOf id = .ok (keyAt a id)) :
    a.denseInput r id = a.normalized id (r.value (keyAt a id)) := by
  unfold Assembler.denseInput
  rw [h]
  rfl

lemma indexInput_eq (h : a.keyOf id = .ok (keyAt a id)) :
    a.indexInput r id = .ok (a.numberOf id (r.value (keyAt a id))) := by
  unfold Assembler.indexInput
  rw [h]
  rfl

lemma recordInputs_of_usable (hnamed : Named a) (h : Usable a r) :
    a.recordInputs r = .ok (inputsOf a r.value) := by
  have hdense : a.dense.mapM (a.denseInput r) =
      .ok (a.dense.map fun id => denseValue a id (r.value (keyAt a id))) := by
    refine mapM_ok_of_forall fun id hid => ?_
    rw [denseInput_eq (hnamed id (mem_used (Or.inl hid))), normalized_eq (h id hid)]
  have hembed : a.embed.mapM (a.indexInput r) =
      .ok (a.embed.map fun id => a.numberOf id (r.value (keyAt a id))) :=
    mapM_ok_of_forall fun id hid => indexInput_eq (hnamed id (mem_used (Or.inr (Or.inl hid))))
  have hwide : a.wide.mapM (a.indexInput r) =
      .ok (a.wide.map fun id => a.numberOf id (r.value (keyAt a id))) :=
    mapM_ok_of_forall fun id hid => indexInput_eq (hnamed id (mem_used (Or.inr (Or.inr hid))))
  unfold Assembler.recordInputs
  rw [hdense, hembed, hwide]
  rfl

/-- When the inputs of a record can be computed, and what they are. -/
theorem recordInputs_eq_ok {x : Inputs Float32} :
    a.recordInputs r = .ok x ↔ Named a ∧ Usable a r ∧ x = inputsOf a r.value := by
  constructor
  · intro h
    obtain ⟨dense, hdense, hrest⟩ := bind_eq_ok.mp h
    obtain ⟨embed, hembed, hrest⟩ := bind_eq_ok.mp hrest
    obtain ⟨wide, hwide, -⟩ := bind_eq_ok.mp hrest
    have hnamed : Named a := named_of_steps (fun _ _ => key_of_bind) (fun _ _ => key_of_bind)
      (fun _ _ => key_of_bind) hdense hembed hwide
    have husable : Usable a r := by
      intro id hid
      obtain ⟨y, hy⟩ := mapM_step_ok hdense id hid
      rw [denseInput_eq (hnamed id (mem_used (Or.inl hid)))] at hy
      exact ⟨y, hy⟩
    rw [recordInputs_of_usable hnamed husable] at h
    exact ⟨hnamed, husable, (Except.ok.inj h).symm⟩
  · rintro ⟨hnamed, husable, rfl⟩
    exact recordInputs_of_usable hnamed husable

end Records

section Frames

lemma columnOf_ofRecords (h : a.keyOf id = .ok (keyAt a id)) :
    a.columnOf (Frame.ofRecords storage none records) id =
      .ok (records.map fun r => heldIn storage records r (keyAt a id)) := by
  have hshared : (keyAt a id).any (Frame.ofRecords storage none records).isShared = false := by
    cases keyAt a id with
    | none => rfl
    | some name => exact isShared_ofRecords name
  unfold Assembler.columnOf
  rw [h, ok_bind]
  simp only [hshared, Bool.false_eq_true, if_false, column_ofRecords]
  rfl

lemma key_of_column {β : Type} {f : Frame} {g : List Raw → Except Error β} {y : β}
    (h : (a.columnOf f id >>= g) = .ok y) : ∃ key, a.keyOf id = .ok key := by
  obtain ⟨values, hvalues, -⟩ := bind_eq_ok.mp h
  exact key_of_bind hvalues

lemma usable_iff_held (hstorage : Documented storage) (hr : r ∈ records) :
    (∃ x, a.normalized id (heldIn storage records r (keyAt a id)) = .ok x) ↔
      ∃ x, a.normalized id (r.value (keyAt a id)) = .ok x :=
  normalized_ok_iff (number?_inFrame hstorage hr (keyAt a id))

lemma denseColumn_eq (hstorage : Documented storage) (hkey : a.keyOf id = .ok (keyAt a id))
    (h : ∀ r ∈ records, ∃ x, a.normalized id (r.value (keyAt a id)) = .ok x) :
    a.denseColumn (Frame.ofRecords storage none records) id =
      .ok (records.map fun r => denseValue a id (heldIn storage records r (keyAt a id))) := by
  unfold Assembler.denseColumn
  rw [columnOf_ofRecords hkey, ok_bind, mapM_ok_of_forall (g := denseValue a id) ?_, List.map_map]
  · rfl
  · intro v hv
    obtain ⟨r, hr, rfl⟩ := List.mem_map.mp hv
    exact normalized_eq ((usable_iff_held hstorage hr).mpr (h r hr))

lemma indexColumn_eq (hkey : a.keyOf id = .ok (keyAt a id)) :
    a.indexColumn (Frame.ofRecords storage none records) id =
      .ok (records.map fun r => a.numberOf id (heldIn storage records r (keyAt a id))) := by
  unfold Assembler.indexColumn
  rw [columnOf_ofRecords hkey, ok_bind, List.map_map]
  rfl

lemma map_getD_columns {β : Type} (d : β) (columns : List Int) (g : Int → RawRecord → β) {i : Nat}
    (hi : i < records.length) :
    ((columns.map fun id => records.map (g id)).map fun c => c.getD i d) =
      columns.map fun id => g id records[i] := by
  rw [List.map_map]
  refine List.map_congr_left fun id _ => ?_
  simp [List.getD_eq_getElem?_getD, hi]

lemma frameInputs_of_usable (hstorage : Documented storage) (hnamed : Named a)
    (h : ∀ r ∈ records, Usable a r) :
    a.frameInputs (Frame.ofRecords storage none records) =
      .ok (records.map fun r => inputsOf a (heldIn storage records r)) := by
  have hdense : a.dense.mapM (a.denseColumn (Frame.ofRecords storage none records)) =
      .ok (a.dense.map fun id => records.map fun r => denseValue a id (heldIn storage records r (keyAt a id))) :=
    mapM_ok_of_forall fun id hid =>
      denseColumn_eq hstorage (hnamed id (mem_used (Or.inl hid))) fun r hr => h r hr id hid
  have hembed : a.embed.mapM (a.indexColumn (Frame.ofRecords storage none records)) =
      .ok (a.embed.map fun id => records.map fun r => a.numberOf id (heldIn storage records r (keyAt a id))) :=
    mapM_ok_of_forall fun id hid => indexColumn_eq (hnamed id (mem_used (Or.inr (Or.inl hid))))
  have hwide : a.wide.mapM (a.indexColumn (Frame.ofRecords storage none records)) =
      .ok (a.wide.map fun id => records.map fun r => a.numberOf id (heldIn storage records r (keyAt a id))) :=
    mapM_ok_of_forall fun id hid => indexColumn_eq (hnamed id (mem_used (Or.inr (Or.inr hid))))
  have hsize : (Frame.ofRecords storage none records).size = records.length := rfl
  unfold Assembler.frameInputs
  rw [hdense, ok_bind, hembed, ok_bind, hwide, ok_bind, hsize]
  refine congrArg Except.ok (List.ext_getElem (by simp) fun i hi hi' => ?_)
  have hlt : i < records.length := by simpa using hi
  simp only [List.getElem_map, List.getElem_range, map_getD_columns _ _ _ hlt, inputsOf]

/-- When the inputs of a batch can be computed, and what they are. -/
theorem frameInputs_eq_ok (hstorage : Documented storage) {rows : List (Inputs Float32)} :
    a.frameInputs (Frame.ofRecords storage none records) = .ok rows ↔
      Named a ∧ (∀ r ∈ records, Usable a r) ∧
        rows = records.map fun r => inputsOf a (heldIn storage records r) := by
  constructor
  · intro h
    obtain ⟨dense, hdense, hrest⟩ := bind_eq_ok.mp h
    obtain ⟨embed, hembed, hrest⟩ := bind_eq_ok.mp hrest
    obtain ⟨wide, hwide, -⟩ := bind_eq_ok.mp hrest
    have hnamed : Named a := named_of_steps (fun _ _ => key_of_column) (fun _ _ => key_of_column)
      (fun _ _ => key_of_column) hdense hembed hwide
    have husable : ∀ r ∈ records, Usable a r := by
      intro r hr id hid
      obtain ⟨y, hy⟩ := mapM_step_ok hdense id hid
      unfold Assembler.denseColumn at hy
      rw [columnOf_ofRecords (hnamed id (mem_used (Or.inl hid))), ok_bind] at hy
      exact (usable_iff_held hstorage hr).mp (mapM_step_ok hy _ (List.mem_map.mpr ⟨r, hr, rfl⟩))
    rw [frameInputs_of_usable hstorage hnamed husable] at h
    exact ⟨hnamed, husable, (Except.ok.inj h).symm⟩
  · rintro ⟨hnamed, husable, rfl⟩
    exact frameInputs_of_usable hstorage hnamed husable

end Frames

/-- A record of which no reading is changed in a frame of records. -/
structure Kept (a : Assembler) (storage : Storage) (records : List RawRecord) (r : RawRecord) :
    Prop where
  dense : ∀ id ∈ a.dense, KeptBy storage records (keyAt a id) (a.normalized id) (r.value (keyAt a id))
  sparse : ∀ id ∈ a.embed ++ a.wide,
    KeptBy storage records (keyAt a id) (a.numberOf id) (r.value (keyAt a id))

lemma kept_of_exact (hstorage : Documented storage)
    (h : ∀ id ∈ a.dense ++ a.embed ++ a.wide, Exact records (keyAt a id) (r.value (keyAt a id))) :
    Kept a storage records r where
  dense := fun id hid => keptBy_of_exact hstorage (h id (mem_used (Or.inl hid)))
  sparse := fun id hid =>
    keptBy_of_exact hstorage (h id (mem_used (Or.inr (List.mem_append.mp hid))))

/-- A record has the inputs in a batch that it has on its own exactly if it is kept. -/
theorem inputsOf_heldIn_iff (hstorage : Documented storage) (hr : r ∈ records) (husable : Usable a r) :
    inputsOf a (heldIn storage records r) = inputsOf a r.value ↔ Kept a storage records r := by
  have hdense : ∀ id ∈ a.dense,
      (denseValue a id (heldIn storage records r (keyAt a id)) = denseValue a id (r.value (keyAt a id)) ↔
        KeptBy storage records (keyAt a id) (a.normalized id) (r.value (keyAt a id))) := by
    intro id hid
    have hown := normalized_eq (husable id hid)
    have hheld := normalized_eq ((usable_iff_held hstorage hr).mpr (husable id hid))
    rw [← inFrame_eq_iff fun _ _ => normalized_congr]
    change _ ↔ a.normalized id (heldIn storage records r (keyAt a id)) = _
    rw [hown, hheld, Except.ok.injEq]
  have hsparse : ∀ id,
      (a.numberOf id (heldIn storage records r (keyAt a id)) = a.numberOf id (r.value (keyAt a id)) ↔
        KeptBy storage records (keyAt a id) (a.numberOf id) (r.value (keyAt a id))) :=
    fun id => inFrame_eq_iff (fun _ _ => numberOf_congr) _ _
  unfold inputsOf
  rw [Inputs.mk.injEq, List.map_inj_left, List.map_inj_left, List.map_inj_left]
  constructor
  · rintro ⟨hd, he, hw⟩
    refine ⟨fun id hid => (hdense id hid).mp (hd id hid), fun id hid => (hsparse id).mp ?_⟩
    rcases List.mem_append.mp hid with hid | hid
    · exact he id hid
    · exact hw id hid
  · intro h
    refine ⟨fun id hid => (hdense id hid).mpr (h.dense id hid), fun id hid => (hsparse id).mpr ?_,
      fun id hid => (hsparse id).mpr ?_⟩
    · exact h.sparse id (List.mem_append_left _ hid)
    · exact h.sparse id (List.mem_append_right _ hid)

/-- A batch has inputs exactly if all names can be looked up and each of its records has inputs. -/
theorem frameInputs_ok_iff (hstorage : Documented storage) :
    (∃ rows, a.frameInputs (Frame.ofRecords storage none records) = .ok rows) ↔
      Named a ∧ ∀ r ∈ records, ∃ x, a.recordInputs r = .ok x := by
  constructor
  · rintro ⟨rows, hrows⟩
    obtain ⟨hnamed, husable, -⟩ := (frameInputs_eq_ok hstorage).mp hrows
    exact ⟨hnamed, fun r hr => ⟨_, recordInputs_eq_ok.mpr ⟨hnamed, husable r hr, rfl⟩⟩⟩
  · rintro ⟨hnamed, hrecords⟩
    refine ⟨_, (frameInputs_eq_ok hstorage).mpr ⟨hnamed, fun r hr => ?_, rfl⟩⟩
    obtain ⟨x, hx⟩ := hrecords r hr
    exact (recordInputs_eq_ok.mp hx).2.1

/-- The rows of a batch are the inputs of those of its records that are kept. -/
theorem row_of_frameInputs (hstorage : Documented storage) {rows : List (Inputs Float32)}
    (h : a.frameInputs (Frame.ofRecords storage none records) = .ok rows) :
    List.Forall₂ (fun r row => ∃ x, a.recordInputs r = .ok x ∧ (row = x ↔ Kept a storage records r))
      records rows := by
  obtain ⟨hnamed, husable, rfl⟩ := (frameInputs_eq_ok hstorage).mp h
  rw [List.forall₂_map_right_iff, List.forall₂_same]
  exact fun r hr => ⟨_, recordInputs_eq_ok.mpr ⟨hnamed, husable r hr, rfl⟩,
    inputsOf_heldIn_iff hstorage hr (husable r hr)⟩

end WideDeep.Proofs
