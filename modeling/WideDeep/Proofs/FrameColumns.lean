import Mathlib.Tactic
import WideDeep.Frame
import WideDeep.Proofs.FloatBits
import WideDeep.Proofs.ExactRounding

/-!
# Columns of a frame

A column of a frame of records holds the values that the records hold, except that in some columns
integers have become floating-point numbers. Read as numbers they are the same.
-/

namespace WideDeep.Proofs
open Binary

section Numbers

lemma isFinite_doubleOfInt {n : Int} (h : n.natAbs < 2 ^ 65) : isFinite (doubleOfInt n) = true := by
  have hlt := nearest_natural_lt h
  obtain ⟨m, e, hparts, -, -⟩ := parts_normal double (by decide) _ hlt
  unfold isFinite doubleOfInt nearestDouble
  rw [shape_doubleOfPattern _ hlt.le, Format.shape, hparts]

/-- An integer that becomes a floating-point number is the same number if that is finite. -/
theorem number?_toReal {v : Raw} (h : ∀ n, v = .int n → isFinite (doubleOfInt n) = true) :
    v.toReal.number? = v.number? := by
  cases v with
  | int n =>
    have hfinite := h n rfl
    unfold Raw.toReal Raw.number? Raw.doubleOfInt? Raw.number
    simp [hfinite, isNaN_of_isFinite hfinite, Except.map]
  | missing => rfl
  | bool b => rfl
  | real x => rfl
  | text s => rfl
  | other => rfl

/-- An integer of at most 53 bits is the value of the double nearest to it. -/
lemma integer?_doubleOfInt {n : Int} (h : n.natAbs < 2 ^ 53) : integer? (doubleOfInt n) = some n := by
  obtain ⟨m, e, hnormal, hpattern, hvalue⟩ :=
    double_of_dyadic h (by decide : -1022 ≤ (0 : Int)) (by decide)
  rw [zpow_zero, mul_one] at hvalue
  have hnearest : double.nearest n.natAbs 1 = patternOf double m e := by
    refine nearest_exact double (by decide) hnormal one_ne_zero ?_ hpattern
    rw [hvalue, Nat.cast_one, mul_one]
  have hshape : shape (doubleOfInt n) = .finite (decide (n < 0)) m e := by
    unfold doubleOfInt nearestDouble
    rw [hnearest, shape_doubleOfPattern _ hpattern.le, Format.shape,
      parts_patternOf double (by decide) hnormal hpattern]
  obtain ⟨hden, hratio⟩ := dyadic_value m e
  have hnum : (dyadic m e).1 = n.natAbs * (dyadic m e).2 := by
    rw [hvalue] at hratio
    exact_mod_cast hratio
  unfold integer?
  rw [hshape]
  dsimp only
  rw [hnum, if_pos (Nat.mul_mod_left _ _), Nat.mul_div_cancel _ (Nat.pos_of_ne_zero hden)]
  by_cases hneg : n < 0
  · rw [if_pos (decide_eq_true hneg)]
    congr 1
    omega
  · rw [if_neg (by simp [hneg])]
    congr 1
    omega

/-- An integer of at most 53 bits that becomes a floating-point number keeps its category. -/
theorem key?_toReal {v : Raw} (h : ∀ n, v = .int n → n.natAbs < 2 ^ 53) : v.toReal.key? = v.key? := by
  cases v with
  | int n =>
    have hsmall := h n rfl
    have hfinite := isFinite_doubleOfInt (hsmall.trans (by decide))
    unfold Raw.toReal Raw.key? Raw.shown
    simp only [isNaN_of_isFinite hfinite, Bool.false_eq_true, if_false, integer?_doubleOfInt hsmall]
  | missing => rfl
  | bool b => rfl
  | real x => rfl
  | text s => rfl
  | other => rfl

end Numbers

section Scan

/-- What stands in a cell of a column. A record without the column leaves a gap. -/
inductive CellKind where
  | gap
  | truth
  | real
  | integer
  | other
  deriving DecidableEq

def cellKind : Option Raw → CellKind
  | none => .gap
  | some .missing => .gap
  | some (.bool _) => .truth
  | some (.real _) => .real
  | some (.int _) => .integer
  | some (.text _) => .other
  | some .other => .other

/-- What stands in the cells of a column. -/
def kindsOf (cells : List (Option Raw)) : List CellKind :=
  cells.map cellKind

/-- A signed machine word. -/
def IsWord (n : Int) : Prop :=
  -0x8000000000000000 ≤ n ∧ n ≤ 0x7fffffffffffffff

/-- What is known of the way columns are stored. Machine words become floating-point numbers if only
gaps and fractions stand beside them, and something does. Integers alone stay as they are, and so does
a column with a truth value or a text. Where integers become floating-point numbers, they are in the
range of these. Nothing is said of larger integers beside gaps and fractions. -/
structure Documented (storage : Storage) : Prop where
  real : ∀ cells, CellKind.truth ∉ kindsOf cells → CellKind.other ∉ kindsOf cells →
    (∀ n, some (.int n) ∈ cells → IsWord n) → CellKind.integer ∈ kindsOf cells →
    (CellKind.gap ∈ kindsOf cells ∨ CellKind.real ∈ kindsOf cells) → storage.makesReal cells = true
  exact : ∀ cells, CellKind.gap ∉ kindsOf cells → CellKind.real ∉ kindsOf cells →
    storage.makesReal cells = false
  mixed : ∀ cells, (CellKind.truth ∈ kindsOf cells ∨ CellKind.other ∈ kindsOf cells) →
    storage.makesReal cells = false
  finite : ∀ cells n, storage.makesReal cells = true → some (.int n) ∈ cells →
    isFinite (doubleOfInt n) = true

lemma addInteger_eq {s s' : ColumnScan} {n : Int} (h : s.addInteger n = some s') :
    n.natAbs < 2 ^ 65 ∧ s'.integer = true ∧ s'.gap = s.gap ∧ s'.truth = s.truth ∧
      s'.real = s.real := by
  unfold ColumnScan.addInteger at h
  dsimp only at h
  by_cases hrange : ((s.large || decide (0x7fffffffffffffff < n)) && (s.negative || decide (n < 0)) ||
      decide (0xffffffffffffffff < n) || decide (n < -0x8000000000000000)) = true
  · rw [if_pos hrange] at h
    cases h
  · rw [if_neg hrange] at h
    cases h
    simp only [Bool.or_eq_true, decide_eq_true_eq, not_or, not_lt] at hrange
    exact ⟨by omega, rfl, rfl, rfl, rfl⟩

lemma addInteger_of_word {s : ColumnScan} {n : Int} (hlarge : s.large = false) (h : IsWord n) :
    ∃ s', s.addInteger n = some s' ∧ s'.large = false := by
  obtain ⟨hlow, hhigh⟩ := h
  have hfits : decide (0x7fffffffffffffff < n) = false ∧ decide (0xffffffffffffffff < n) = false ∧
      decide (n < -0x8000000000000000) = false := by
    simp only [decide_eq_false_iff_not]
    omega
  unfold ColumnScan.addInteger
  simp [hlarge, hfits]

/-- What a scan that goes through to the end has seen. -/
structure Scanned (s seen : ColumnScan) (cells : List (Option Raw)) : Prop where
  gap : seen.gap = true ↔ s.gap = true ∨ CellKind.gap ∈ kindsOf cells
  truth : seen.truth = true ↔ s.truth = true ∨ CellKind.truth ∈ kindsOf cells
  real : seen.real = true ↔ s.real = true ∨ CellKind.real ∈ kindsOf cells
  integer : seen.integer = true ↔ s.integer = true ∨ CellKind.integer ∈ kindsOf cells
  other : CellKind.other ∉ kindsOf cells
  words : ∀ n, some (.int n) ∈ cells → n.natAbs < 2 ^ 65

/-- One cell more: what has been seen before it and its kind. -/
lemma scanned_cons {s next seen : ColumnScan} {cell : Option Raw} {rest : List (Option Raw)}
    (h : Scanned next seen rest) (hgap : next.gap = true ↔ s.gap = true ∨ cellKind cell = .gap)
    (htruth : next.truth = true ↔ s.truth = true ∨ cellKind cell = .truth)
    (hreal : next.real = true ↔ s.real = true ∨ cellKind cell = .real)
    (hinteger : next.integer = true ↔ s.integer = true ∨ cellKind cell = .integer)
    (hother : cellKind cell ≠ .other) (hword : ∀ n, cell = some (.int n) → n.natAbs < 2 ^ 65) :
    Scanned s seen (cell :: rest) := by
  have hmem : ∀ kind, kind ∈ kindsOf (cell :: rest) ↔ cellKind cell = kind ∨ kind ∈ kindsOf rest := by
    intro kind
    unfold kindsOf
    rw [List.map_cons, List.mem_cons, eq_comm]
  constructor
  · rw [h.gap, hgap, hmem, or_assoc]
  · rw [h.truth, htruth, hmem, or_assoc]
  · rw [h.real, hreal, hmem, or_assoc]
  · rw [h.integer, hinteger, hmem, or_assoc]
  · rw [hmem, not_or]
    exact ⟨hother, h.other⟩
  · intro n hn
    rcases List.mem_cons.mp hn with hcell | hrest
    · exact hword n hcell.symm
    · exact h.words n hrest

theorem scanned_of_scan {s seen : ColumnScan} {cells : List (Option Raw)}
    (h : ColumnScan.scan s cells = some seen) : Scanned s seen cells := by
  induction cells generalizing s with
  | nil =>
    cases h
    constructor <;> simp [kindsOf]
  | cons cell rest ih =>
    unfold ColumnScan.scan at h
    cases cell with
    | none => apply scanned_cons (ih h) <;> simp [cellKind]
    | some v =>
      cases v with
      | missing => apply scanned_cons (ih h) <;> simp [cellKind]
      | bool b => apply scanned_cons (ih h) <;> simp [cellKind]
      | real x => apply scanned_cons (ih h) <;> simp [cellKind]
      | int n =>
        obtain ⟨next, hadd, hscan⟩ := Option.bind_eq_some_iff.mp h
        obtain ⟨hword, hinteger, hgap, htruth, hreal⟩ := addInteger_eq hadd
        apply scanned_cons (ih hscan) <;> simp [cellKind, hinteger, hgap, htruth, hreal]
        omega
      | text t => cases h
      | other => cases h

/-- A column of machine words, fractions and gaps is scanned to the end. -/
lemma scan_of_words {s : ColumnScan} {cells : List (Option Raw)} (hlarge : s.large = false)
    (htruth : CellKind.truth ∉ kindsOf cells) (hother : CellKind.other ∉ kindsOf cells)
    (hwords : ∀ n, some (.int n) ∈ cells → IsWord n) :
    ∃ seen, ColumnScan.scan s cells = some seen := by
  induction cells generalizing s with
  | nil => exact ⟨s, rfl⟩
  | cons cell rest ih =>
    have htruthRest : CellKind.truth ∉ kindsOf rest := fun h => htruth (List.mem_cons_of_mem _ h)
    have hotherRest : CellKind.other ∉ kindsOf rest := fun h => hother (List.mem_cons_of_mem _ h)
    have hrest : ∀ n, some (.int n) ∈ rest → IsWord n :=
      fun n hn => hwords n (List.mem_cons_of_mem _ hn)
    unfold ColumnScan.scan
    cases cell with
    | none => exact ih hlarge htruthRest hotherRest hrest
    | some v =>
      cases v with
      | missing => exact ih hlarge htruthRest hotherRest hrest
      | real x => exact ih hlarge htruthRest hotherRest hrest
      | int n =>
        obtain ⟨next, hadd, hnext⟩ := addInteger_of_word hlarge (hwords n List.mem_cons_self)
        obtain ⟨seen, hseen⟩ := ih hnext htruthRest hotherRest hrest
        exact ⟨seen, Option.bind_eq_some_iff.mpr ⟨next, hadd, hseen⟩⟩
      | bool b => exact absurd List.mem_cons_self htruth
      | text t => exact absurd List.mem_cons_self hother
      | other => exact absurd List.mem_cons_self hother

/-- A column is stored as floating-point numbers if it is scanned to the end, holds an integer and no
truth value, and has a gap or a fraction. -/
lemma makesReal_scanned {cells : List (Option Raw)} :
    Storage.scanned.makesReal cells = true ↔ ∃ seen, ColumnScan.scan {} cells = some seen ∧
      CellKind.integer ∈ kindsOf cells ∧ CellKind.truth ∉ kindsOf cells ∧
        (CellKind.gap ∈ kindsOf cells ∨ CellKind.real ∈ kindsOf cells) := by
  unfold Storage.scanned
  dsimp only
  rw [Option.any_eq_true]
  refine exists_congr fun seen => and_congr_right fun hscan => ?_
  have hseen := scanned_of_scan hscan
  unfold ColumnScan.makesReal
  rw [Bool.and_eq_true, Bool.and_eq_true, Bool.or_eq_true, Bool.not_eq_true', ← Bool.not_eq_true,
    hseen.integer, hseen.truth, hseen.gap, hseen.real, and_assoc]
  simp

/-- The rule in use is as is known. -/
theorem documented_scanned : Documented .scanned where
  real := by
    intro cells htruth hother hwords hinteger hbeside
    obtain ⟨seen, hscan⟩ := scan_of_words (s := {}) rfl htruth hother hwords
    exact makesReal_scanned.mpr ⟨seen, hscan, hinteger, htruth, hbeside⟩
  exact := by
    intro cells hgap hreal
    rw [Bool.eq_false_iff]
    intro hmade
    obtain ⟨-, -, -, -, hbeside⟩ := makesReal_scanned.mp hmade
    exact hbeside.elim hgap hreal
  mixed := by
    intro cells hmixed
    rw [Bool.eq_false_iff]
    intro hmade
    obtain ⟨seen, hscan, -, htruth, -⟩ := makesReal_scanned.mp hmade
    exact hmixed.elim htruth (scanned_of_scan hscan).other
  finite := by
    intro cells n hmade hmem
    obtain ⟨seen, hscan, -⟩ := makesReal_scanned.mp hmade
    exact isFinite_doubleOfInt ((scanned_of_scan hscan).words n hmem)

/-- A cell whose integer, if it holds one, is in the range of floating-point numbers. -/
def inDoubles : Option Raw → Bool
  | some (.int n) => isFinite (doubleOfInt n)
  | _ => true

/-- The rule that goes by the kinds of values alone, where integers of any size become floating-point
numbers beside gaps and fractions. -/
def kindStorage : Storage where
  makesReal cells :=
    decide (CellKind.integer ∈ kindsOf cells ∧ CellKind.truth ∉ kindsOf cells ∧
      CellKind.other ∉ kindsOf cells ∧
        (CellKind.gap ∈ kindsOf cells ∨ CellKind.real ∈ kindsOf cells)) && cells.all inDoubles

lemma makesReal_kinds {cells : List (Option Raw)} :
    kindStorage.makesReal cells = true ↔
      (CellKind.integer ∈ kindsOf cells ∧ CellKind.truth ∉ kindsOf cells ∧
        CellKind.other ∉ kindsOf cells ∧
          (CellKind.gap ∈ kindsOf cells ∨ CellKind.real ∈ kindsOf cells)) ∧
        ∀ n, some (.int n) ∈ cells → isFinite (doubleOfInt n) = true := by
  unfold kindStorage
  rw [Bool.and_eq_true, decide_eq_true_eq, List.all_eq_true]
  refine and_congr_right fun _ => ⟨fun h n hn => h _ hn, fun h cell hcell => ?_⟩
  unfold inDoubles
  split
  · exact h _ hcell
  · rfl

/-- Larger integers may also become floating-point numbers. -/
theorem documented_kinds : Documented kindStorage where
  real := by
    intro cells htruth hother hwords hinteger hbeside
    refine makesReal_kinds.mpr ⟨⟨hinteger, htruth, hother, hbeside⟩, fun n hn => ?_⟩
    obtain ⟨hlow, hhigh⟩ := hwords n hn
    apply isFinite_doubleOfInt
    omega
  exact := by
    intro cells hgap hreal
    rw [Bool.eq_false_iff]
    intro hmade
    obtain ⟨⟨-, -, -, hbeside⟩, -⟩ := makesReal_kinds.mp hmade
    exact hbeside.elim hgap hreal
  mixed := by
    intro cells hmixed
    rw [Bool.eq_false_iff]
    intro hmade
    obtain ⟨⟨-, htruth, hother, -⟩, -⟩ := makesReal_kinds.mp hmade
    exact hmixed.elim htruth hother
  finite := by
    intro cells n hmade hmem
    exact (makesReal_kinds.mp hmade).2 n hmem

end Scan

/-- The values of records under a key. -/
def cellsOf (records : List RawRecord) (key : Option String) : List (Option Raw) :=
  records.map fun r => key.bind fun k => r.lookup k

/-- A value under a key as a frame of records holds it. -/
def inFrame (storage : Storage) (records : List RawRecord) (key : Option String) (v : Raw) : Raw :=
  if storage.makesReal (cellsOf records key) then v.toReal else v

section Columns

variable {storage : Storage} {records : List RawRecord}

lemma nodup_eraseDups (names : List String) : names.eraseDups.Nodup := by
  obtain ⟨n, hn⟩ : ∃ n, names.length = n := ⟨_, rfl⟩
  induction n using Nat.strong_induction_on generalizing names with
  | _ n ih =>
    cases names with
    | nil => exact List.nodup_nil
    | cons a rest =>
      have hshort : (rest.filter fun b => !b == a).length < n := by
        have hle := List.length_filter_le (fun b => !b == a) rest
        rw [List.length_cons] at hn
        omega
      rw [List.eraseDups_cons, List.nodup_cons]
      refine ⟨fun hmem => ?_, ih _ hshort _ rfl⟩
      have hfilter := List.mem_eraseDups.mp hmem
      simp at hfilter

lemma lookup_columns (names : List String) (g : String → List Raw) (key : String) :
    (names.map fun name => (name, g name)).lookup key = if key ∈ names then some (g key) else none := by
  induction names with
  | nil => rfl
  | cons name rest ih =>
    rw [List.map_cons, List.lookup_cons, ih]
    by_cases h : key = name
    · subst h
      simp
    · have hne : (key == name) = false := beq_eq_false_iff_ne.mpr h
      simp [hne, h]

/-- Columns of distinct names share none. -/
lemma isShared_of_nodup {f : Frame} (h : (f.columns.map Prod.fst).Nodup) (name : String) :
    f.isShared name = false := by
  unfold Frame.isShared
  rw [decide_eq_false_iff_not, not_lt]
  have hcount := List.nodup_iff_count_le_one.mp h name
  rw [List.count_eq_length_filter, List.filter_map, List.length_map] at hcount
  exact hcount

/-- No two columns of a frame of records share a name. -/
theorem isShared_ofRecords (name : String) :
    (Frame.ofRecords storage none records).isShared name = false := by
  refine isShared_of_nodup ?_ name
  have hnames : (Frame.ofRecords storage none records).columns.map Prod.fst = Frame.namesOf records := by
    unfold Frame.ofRecords
    rw [List.map_map]
    exact List.map_id' _
  rw [hnames]
  exact nodup_eraseDups _

lemma storeColumn_eq (key : String) :
    storeColumn storage (records.map fun r => r.lookup key) =
      records.map fun r => inFrame storage records (some key) (r.value (some key)) := by
  unfold storeColumn inFrame RawRecord.value
  change (if storage.makesReal (cellsOf records (some key)) then _ else _) = _
  by_cases hreal : storage.makesReal (cellsOf records (some key)) = true
  · simp [hreal]
  · simp [hreal]

/-- The values of a column are those of the records, as the frame holds them. -/
theorem column_ofRecords (key : Option String) :
    (Frame.ofRecords storage none records).column key =
      records.map fun r => inFrame storage records key (r.value key) := by
  have hgap : ∀ key, inFrame storage records key .missing = .missing := by
    intro key
    unfold inFrame
    split <;> rfl
  cases key with
  | none =>
    have hmissing : ∀ r : RawRecord, inFrame storage records none (r.value none) = .missing :=
      fun _ => hgap none
    unfold Frame.column Frame.ofRecords
    simp only [Option.bind_none, Option.getD_none, hmissing, List.map_const']
  | some key =>
    rw [← storeColumn_eq]
    unfold Frame.column Frame.ofRecords
    rw [Option.bind_some, lookup_columns]
    by_cases hmem : key ∈ Frame.namesOf records
    · simp [hmem]
    · have hnone : ∀ r ∈ records, r.lookup key = none := by
        intro r hr
        rw [List.lookup_eq_none_iff]
        intro p hp
        refine bne_iff_ne.mpr fun heq => hmem ?_
        refine List.mem_eraseDups.mpr (List.mem_flatMap.mpr ⟨r, hr, ?_⟩)
        rw [heq]
        exact List.mem_map_of_mem hp
      have hmissing : ∀ r ∈ records,
          inFrame storage records (some key) (r.value (some key)) = .missing := by
        intro r hr
        unfold RawRecord.value
        rw [Option.bind_some, hnone r hr, Option.getD_none, hgap]
      rw [storeColumn_eq, List.map_congr_left hmissing, List.map_const']
      simp [hmem]

end Columns

end WideDeep.Proofs
