import Mathlib.Tactic
import WideDeep.Binning
import WideDeep.Config.Model
import WideDeep.Proofs.Categories
import WideDeep.Proofs.LayoutTables

/-!
# Rows of categories

The tables of a categorical column have one row for each label and a last one for missing values. A
value with a bin reads the row of its bin. A missing value reads the last row if the column has at
least as many synonyms as labels; labels that repeat synonyms can send it to the row of a category.
-/

namespace WideDeep.Proofs

section Tables

variable {config : ModelConfig} {l : Layout} {t : TableSize} {record : ColumnRecord}
  {c : ColumnStats}

lemma stats_eq_ok (h : record.stats = .ok c) :
    c.number = record.number ∧ c.kind = record.kind ∧ c.labels.length = record.labels.length := by
  obtain ⟨texts, -, hdone⟩ := bind_eq_ok.mp h
  cases hdone
  exact ⟨rfl, rfl, List.length_map _⟩

/-- The tables of a configured column have a row for each of its labels and one more. -/
theorem rows_of_layout (hlayout : config.layout = .ok l) (ht : t ∈ l.embedTables ∨ t ∈ l.wideTables)
    (hnumbers : (config.columns.map (·.number)).Nodup) (hrecord : record ∈ config.columns)
    (hcolumn : record.number = t.column) : t.rows = record.labels.length + 1 := by
  have hmade := madeFrom_of_make (plan_eq_ok.mp hlayout).1
  have hlookup : config.categories.lookup t.column = some ((t.rows : Int) - 1) := by
    rcases ht with ht | ht
    · exact lookup_of_makeAll hmade.embedTables t ht
    · exact lookup_of_makeAll hmade.wideTables t ht
  obtain ⟨before, after, hsplit, -⟩ := List.lookup_eq_some_iff.mp hlookup
  have hentry : (t.column, (t.rows : Int) - 1) ∈ config.categories := by
    rw [hsplit]
    exact List.mem_append_right before List.mem_cons_self
  obtain ⟨found, hfound, heq⟩ := List.mem_map.mp hentry
  have hsame : found = record := by
    refine List.inj_on_of_nodup_map hnumbers (List.mem_of_mem_filter hfound) hrecord ?_
    exact (congrArg Prod.fst heq).trans hcolumn.symm
  have hrows : (found.labels.length : Int) = (t.rows : Int) - 1 := congrArg Prod.snd heq
  rw [hsame] at hrows
  omega

end Tables

section Rows

variable {c : ColumnStats} {v : Raw} {i : Nat}

lemma bin?_categorical (hkind : c.kind = .categorical) (v : Raw) :
    c.bin? v = .ok (c.categoryIndex.find? v) := by
  unfold ColumnStats.bin? ColumnStats.binWith?
  rw [hkind]

/-- The row that a table with one row for each label and one more gives to a value. -/
def rowOf (c : ColumnStats) (v : Raw) : Nat :=
  resolve (c.labels.length + 1) (c.categoryIndex.number v)

lemma rowOf_of_found (h : c.categoryIndex.find? v = some i) : rowOf c v = i := by
  have hlt : i < c.labels.length := find?_lt_length h
  have hnumber : c.categoryIndex.number v = i := by
    unfold CategoryIndex.number
    rw [h, Option.getD_some]
  unfold rowOf resolve
  rw [hnumber, if_pos (by omega), Int.toNat_natCast]

lemma rowOf_of_missing (h : c.categoryIndex.find? v = none) :
    rowOf c v = min (allSynonyms c.labels).dedup.length c.labels.length := by
  have hnumber : c.categoryIndex.number v = (allSynonyms c.labels).dedup.length := by
    unfold CategoryIndex.number
    rw [h, Option.getD_none]
    exact missing_ofLabels c.labels
  unfold rowOf resolve
  rw [hnumber]
  split_ifs with hin
  · rw [Int.toNat_natCast]
    omega
  · omega

/-- Only values without a category read the last row exactly if there are enough synonyms. -/
lemma last_row_iff : (∀ v, c.categoryIndex.find? v = none ↔ rowOf c v = c.labels.length) ↔
    c.labels.length ≤ (allSynonyms c.labels).dedup.length := by
  constructor
  · intro hreserved
    have hmissing : c.categoryIndex.find? .missing = none := rfl
    have hrow := (hreserved .missing).mp hmissing
    rw [rowOf_of_missing hmissing] at hrow
    omega
  · intro henough v
    constructor
    · intro hnone
      rw [rowOf_of_missing hnone]
      omega
    · intro hrow
      cases hfound : c.categoryIndex.find? v with
      | none => rfl
      | some i =>
        have hlt : i < c.labels.length := find?_lt_length hfound
        rw [rowOf_of_found hfound] at hrow
        omega

/-- A value without a category shares the row of one exactly if that stands at the position that is
the number of distinct synonyms. -/
lemma shared_row_iff : (∃ v w i, c.categoryIndex.find? v = none ∧ c.categoryIndex.find? w = some i ∧
      rowOf c v = rowOf c w) ↔
    ∃ synonym, LastWith c.labels synonym (allSynonyms c.labels).dedup.length := by
  constructor
  · rintro ⟨v, w, i, hv, hw, hsame⟩
    have hlt : i < c.labels.length := find?_lt_length hw
    rw [rowOf_of_missing hv, rowOf_of_found hw] at hsame
    have hposition : i = (allSynonyms c.labels).dedup.length := by omega
    obtain ⟨key, -, hget⟩ := Option.bind_eq_some_iff.mp hw
    exact ⟨key, hposition ▸ get?_ofLabels.mp hget⟩
  · rintro ⟨synonym, hlast⟩
    have hmissing : c.categoryIndex.find? .missing = none := rfl
    have hfound : c.categoryIndex.find? (.text synonym) =
        some (allSynonyms c.labels).dedup.length :=
      Option.bind_eq_some_iff.mpr ⟨synonym, rfl, get?_ofLabels.mpr hlast⟩
    refine ⟨.missing, .text synonym, _, hmissing, hfound, ?_⟩
    rw [rowOf_of_missing hmissing, rowOf_of_found hfound, min_eq_left hlast.lt_length.le]

/-- The rows that the tables of a categorical column give to raw values. A value with a bin reads the
row of its bin. All others read one row, the last one if there are at least as many distinct synonyms
as labels, as there are whenever no two labels share a synonym. A value without a bin reads the row of
a category exactly if some label is the last one with one of its synonyms and stands at the position
that is the number of distinct synonyms. -/
theorem missing_row (c : ColumnStats) (hkind : c.kind = .categorical) :
    let last := c.labels.length
    let count := (allSynonyms c.labels).dedup.length
    (∀ (config : ModelConfig) (l : Layout) (record : ColumnRecord) (t : TableSize),
      config.layout = .ok l → (config.columns.map (·.number)).Nodup → record ∈ config.columns →
      record.stats = .ok c → (t ∈ l.embedTables ∨ t ∈ l.wideTables) → t.column = c.number →
        ∀ v, resolve t.rows (c.categoryIndex.number v) = rowOf c v ∧ t.rows - 1 = last) ∧
    (∀ v, ∃ bin, c.bin? v = .ok bin ∧ (∀ i, bin = some i → rowOf c v = i ∧ i < last) ∧
      (bin = none → rowOf c v = min count last)) ∧
    ((∀ v, c.bin? v = .ok none ↔ rowOf c v = last) ↔ last ≤ count) ∧
    (Apart c.labels → last ≤ count) ∧
    ((∃ v w i, c.bin? v = .ok none ∧ c.bin? w = .ok (some i) ∧ rowOf c v = rowOf c w) ↔
      ∃ synonym, LastWith c.labels synonym count) := by
  intro last count
  have hbin : ∀ v, c.bin? v = .ok (c.categoryIndex.find? v) := bin?_categorical hkind
  simp only [hbin, Except.ok.injEq]
  refine ⟨?_, fun v => ?_, last_row_iff, length_le_of_apart, shared_row_iff⟩
  · intro config l record t hlayout hnumbers hrecord hstats ht hcolumn v
    obtain ⟨hnumber, -, hlabels⟩ := stats_eq_ok hstats
    have hrows := rows_of_layout hlayout ht hnumbers hrecord (hnumber.symm.trans hcolumn.symm)
    rw [← hlabels] at hrows
    unfold rowOf
    rw [hrows]
    exact ⟨rfl, rfl⟩
  · exact ⟨_, rfl, fun i hi => ⟨rowOf_of_found hi, find?_lt_length hi⟩, rowOf_of_missing⟩

end Rows

section Sample

/-- A column with the same label twice. -/
def repeatedColumn : ColumnStats where
  number := 0
  name := some "colour"
  kind := .categorical
  mean := 0
  stddev := 1
  cutoff := 4
  boundaries := []
  labels := ["red", "red"]
  countEvidence := []
  weightedEvidence := []
  evidenceMean := 0
  evidenceStddev := 1
  weightedMean := 0
  weightedStddev := 1
  countEvidence_fits := rfl
  weightedEvidence_fits := rfl

theorem missing_row_repeated :
    repeatedColumn.kind = .categorical ∧
    (∃ v w i, repeatedColumn.bin? v = .ok none ∧ repeatedColumn.bin? w = .ok (some i) ∧
      rowOf repeatedColumn v = rowOf repeatedColumn w) ∧
    ¬∀ v, repeatedColumn.bin? v = .ok none ↔ rowOf repeatedColumn v = 2 := by
  obtain ⟨-, -, hreserved, -, hshared⟩ := missing_row repeatedColumn rfl
  have hcount : (allSynonyms repeatedColumn.labels).dedup.length = 1 := by decide +kernel
  refine ⟨rfl, hshared.mpr ⟨"red", ⟨"red", ?_, ?_⟩, ?_⟩, ?_⟩
  · rw [hcount]
    rfl
  · decide +kernel
  · intro j label hj hlabel
    have hlt : j < 2 := (List.getElem?_eq_some_iff.mp hlabel).1
    omega
  · intro hall
    have hle : 2 ≤ (allSynonyms repeatedColumn.labels).dedup.length := hreserved.mp hall
    omega

end Sample

end WideDeep.Proofs
