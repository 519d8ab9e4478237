import Mathlib.Tactic
import WideDeep.Predictor
import WideDeep.Proofs.BatchInputs
import WideDeep.Proofs.Categories
import WideDeep.Proofs.ModelShape

/-!
# Scores of a batch

A batch is scored if each of its records can be scored on its own, and a record whose inputs are
kept in the frame of the batch has the same score in both ways.
-/

namespace WideDeep.Proofs
open Binary

section Categories

/-- Positions and length of an index stay below a bound. -/
def IndexWithin (bound : Nat) (index : CategoryIndex) : Prop :=
  index.length ≤ bound ∧ ∀ q ∈ index, q.2 ≤ bound

/-- The numbers of an index do not exceed the number of synonyms. -/
theorem within_ofLabels (labels : List String) :
    IndexWithin (allSynonyms labels).length (CategoryIndex.ofLabels labels) := by
  refine ⟨?_, fun q hq => ?_⟩
  · have hmissing := missing_ofLabels labels
    unfold CategoryIndex.missing at hmissing
    rw [hmissing]
    exact (List.dedup_sublist _).length_le
  · have hnodup := (keys_ofLabels labels).nodup_iff.mpr (List.nodup_dedup _)
    have hget : (CategoryIndex.ofLabels labels).get? q.1 = some q.2 := lookup_of_mem hnodup hq
    have hposition := (get?_ofLabels.mp hget).lt_length
    exact hposition.le.trans (length_le_allSynonyms labels)

end Categories

section Batches

variable {a : Assembler} {l : Layout}

/-- The columns of an assembler are those that a layout reads. -/
structure ReadsColumns (a : Assembler) (l : Layout) : Prop where
  dense : a.dense = l.dense
  embed : a.embed = l.embed
  wide : a.wide = l.wide

lemma checkLookups_congr (tables : List TableSize) (columns : List Int) {g h : Grid Int}
    (hwidth : g.width = h.width) (hrows : g.rows.isEmpty = h.rows.isEmpty) :
    Model.checkLookups tables columns g = Model.checkLookups tables columns h := by
  unfold Model.checkLookups Model.tableFor
  rw [hwidth, hrows]

/-- Whether a batch fits a layout depends on its columns only, and it gives one result for each of
its records. -/
theorem resultCount_batch {rows : List (Inputs Float32)} (hrows : rows ≠ []) (x : Inputs Float32) :
    Model.resultCount l (a.batch rows) =
      (Model.resultCount l (a.batch [x])).map fun _ => rows.length := by
  have hempty : rows.isEmpty = false := by simpa using hrows
  have hwide : ∀ columns, Model.checkLookups l.wideTables columns (a.batch rows).wide =
      Model.checkLookups l.wideTables columns (a.batch [x]).wide :=
    fun columns => checkLookups_congr _ _ rfl (by simp [Assembler.batch, hempty])
  have hembed : Model.checkLookups l.embedTables l.embed (a.batch rows).embed =
      Model.checkLookups l.embedTables l.embed (a.batch [x]).embed :=
    checkLookups_congr _ _ rfl (by simp [Assembler.batch, hempty])
  have hdense : (a.batch rows).dense.width = (a.batch [x]).dense.width := rfl
  have hcount : (a.batch rows).dense.rows.length = rows.length := by simp [Assembler.batch]
  have hcountEmbed : (a.batch rows).embed.rows.length = rows.length := by simp [Assembler.batch]
  have hcountWide : (a.batch rows).wide.rows.length = rows.length := by simp [Assembler.batch]
  have hone : (a.batch [x]).dense.rows.length = 1 := rfl
  have honeEmbed : (a.batch [x]).embed.rows.length = 1 := rfl
  have honeWide : (a.batch [x]).wide.rows.length = 1 := rfl
  unfold Model.resultCount Model.wideCount
  simp only [hwide, hembed, hdense, hcount, hcountEmbed, hcountWide, hone, honeEmbed, honeWide,
    broadcast_self, bne_self_eq_false, Bool.and_false]
  have htail : ∀ n : Nat, (do
      Model.checkLookups l.embedTables l.embed (a.batch [x]).embed
      if (a.batch [x]).dense.width + Model.embedWidth l != l.inputs then throw .tensorShape
      pure n : Except Error Nat) = (do
      Model.checkLookups l.embedTables l.embed (a.batch [x]).embed
      if (a.batch [x]).dense.width + Model.embedWidth l != l.inputs then throw .tensorShape
      pure 1 : Except Error Nat).map fun _ => n := by
    intro n
    cases Model.checkLookups l.embedTables l.embed (a.batch [x]).embed with
    | error e => rfl
    | ok u =>
      simp only [ok_bind]
      split <;> rfl
  cases l.wide with
  | nil => exact htail rows.length
  | cons first rest =>
    dsimp only
    cases Model.checkLookups l.wideTables [first] (a.batch [x]).wide with
    | error e => rfl
    | ok u =>
      cases Model.checkLookups l.wideTables (first :: rest) (a.batch [x]).wide with
      | error e => rfl
      | ok u => exact htail rows.length

end Batches

section Scores

variable {a : Assembler} {l : Layout} {m : Model Float32}

/-- No column has more synonyms than a machine can count. -/
def Addressable (a : Assembler) : Prop :=
  ∀ f ∈ a.features, (allSynonyms f.stats.labels).length < 2 ^ 63

lemma fitsIndex_numberOf (h : Addressable a) (id : Int) (v : Raw) :
    fitsIndex (a.numberOf id v) = true := by
  unfold Assembler.numberOf
  cases hfeature : a.feature? id with
  | none => rfl
  | some f =>
    have hbound := h f (List.mem_of_find?_eq_some hfeature)
    obtain ⟨hlength, hpositions⟩ := within_ofLabels f.stats.labels
    have hindex : f.index = CategoryIndex.ofLabels f.stats.labels := f.index_eq
    rw [← hindex] at hlength hpositions
    have hnumber : f.index.number v ≤ (allSynonyms f.stats.labels).length := by
      unfold CategoryIndex.number
      cases hfind : f.index.find? v with
      | none => exact hlength
      | some n =>
        obtain ⟨s, -, hlookup⟩ := Option.bind_eq_some_iff.mp hfind
        obtain ⟨before, after, hsplit, -⟩ := List.lookup_eq_some_iff.mp hlookup
        refine hpositions (s, n) ?_
        rw [hsplit]
        simp
    unfold fitsIndex Feature.number
    simp only [Bool.and_eq_true, decide_eq_true_eq]
    omega

lemma indexOf_sparse (columns : List Int) (g : Int → Int) {c : Int} (hc : c ∈ columns) :
    SparseInput.indexOf (Assembler.sparse columns (columns.map g)) c = g c := by
  have hsparse : Assembler.sparse columns (columns.map g) = columns.map fun c => ⟨c, g c⟩ := by
    unfold Assembler.sparse
    rw [List.zip_map_right, List.map_map, List.zip_eq_zipWith, List.map_zipWith]
    simp
  unfold SparseInput.indexOf
  rw [hsparse]
  cases hfind : (columns.map fun c => (⟨c, g c⟩ : SparseInput)).reverse.find? (·.column == c) with
  | none =>
    have hnone := List.find?_eq_none.mp hfind ⟨c, g c⟩
      (List.mem_reverse.mpr (List.mem_map.mpr ⟨c, hc, rfl⟩))
    simp at hnone
  | some q =>
    have hcolumn : q.column = c := by simpa using List.find?_some hfind
    obtain ⟨c', -, rfl⟩ := List.mem_map.mp (List.mem_reverse.mp (List.mem_of_find?_eq_some hfind))
    subst hcolumn
    rfl

lemma map_indexOf_sparse (columns : List Int) (g : Int → Int) :
    columns.map (SparseInput.indexOf (Assembler.sparse columns (columns.map g))) = columns.map g :=
  List.map_congr_left fun _ hc => indexOf_sparse columns g hc

/-- The inputs of a record on its own are a batch of one. -/
lemma single_inputsOf (h : ReadsColumns a l) (value : Option String → Raw) :
    Model.single l (inputsOf a value).dense
      (Assembler.sparse a.embed (inputsOf a value).embed)
      (Assembler.sparse a.wide (inputsOf a value).wide) = a.batch [inputsOf a value] := by
  unfold Model.single Assembler.batch inputsOf
  simp only [← h.embed, ← h.wide, map_indexOf_sparse, List.length_map, List.map_cons, List.map_nil]

/-- The inputs that a model takes from a batch are those of its records. -/
lemma records_batch (h : ReadsColumns a l) (values : List (Option String → Raw)) :
    Model.records l (a.batch (values.map (inputsOf a))) values.length = values.map (inputsOf a) := by
  have hrows := records_rows (l := l) (b := a.batch (values.map (inputsOf a)))
    (values.map (inputsOf a)) rfl rfl rfl
    (List.forall_mem_map.mpr fun v _ => (List.length_map _).trans (congrArg List.length h.embed))
    (List.forall_mem_map.mpr fun v _ => (List.length_map _).trans (congrArg List.length h.wide))
  rwa [List.length_map] at hrows

lemma regular_batch (a : Assembler) (values : List (Option String → Raw)) :
    Regular (a.batch (values.map (inputsOf a))) := by
  constructor
  · intro row hrow
    simp only [Assembler.batch, List.map_map, List.mem_map] at hrow
    obtain ⟨v, -, rfl⟩ := hrow
    exact List.length_map _
  · intro row hrow
    simp only [Assembler.batch, List.map_map, List.mem_map] at hrow
    obtain ⟨v, -, rfl⟩ := hrow
    exact List.length_map _

/-- A model takes batches of the columns of an assembler. -/
def Accepts (m : Model Float32) (a : Assembler) : Prop :=
  ∃ n, Model.resultCount m.layout (a.batch [inputsOf a fun _ => .missing]) = .ok n

/-- When a batch is scored, and what its scores are. -/
theorem scores_batch (h : ReadsColumns a m.layout) (values : List (Option String → Raw))
    (hne : values ≠ []) (ys : List Float32) :
    m.scores (a.batch (values.map (inputsOf a))) = .ok ys ↔
      Accepts m a ∧ ys = values.map fun v => m.score (inputsOf a v) := by
  have hrows : values.map (inputsOf a) ≠ [] := by simpa using hne
  have hcount := resultCount_batch (l := m.layout) (a := a) hrows (inputsOf a fun _ => .missing)
  rw [List.length_map] at hcount
  unfold Accepts
  unfold Model.scores
  rw [logits_eq (regular_batch a values), hcount]
  cases Model.resultCount m.layout (a.batch [inputsOf a fun _ => .missing]) with
  | error e =>
    constructor
    · intro hfail
      cases hfail
    · rintro ⟨⟨n, hn⟩, -⟩
      cases hn
  | ok n =>
    change (.ok (((Model.records m.layout (a.batch (values.map (inputsOf a))) values.length).map
      m.logit).map sigmoid) : Except Error (List Float32)) = .ok ys ↔ _
    rw [records_batch h, List.map_map, List.map_map, Except.ok.injEq]
    constructor
    · intro heq
      exact ⟨⟨n, rfl⟩, heq.symm⟩
    · rintro ⟨-, heq⟩
      exact heq.symm

end Scores

section Predictors

variable {p : Predictor} {storage : Storage} {r : RawRecord} {records : List RawRecord}

lemma readsColumns_of_stored {s : StoredModel} {simple : Bool}
    (h : Predictor.ofStored s simple = .ok p) :
    ReadsColumns p.assembler p.model.layout := by
  obtain ⟨a, ha, hp⟩ := bind_eq_ok.mp h
  obtain ⟨_, -, hmake⟩ := bind_eq_ok.mp ha
  cases hp
  cases hmake
  exact ⟨rfl, rfl, rfl⟩

/-- When a record is scored on its own, and what its score is. -/
theorem score_eq_ok (h : ReadsColumns p.assembler p.model.layout)
    (haddressable : Addressable p.assembler) {z : List Float32} :
    p.score r = .ok z ↔ (Named p.assembler ∧ Usable p.assembler r) ∧ Accepts p.model p.assembler ∧
      z = [p.model.score (inputsOf p.assembler r.value)] := by
  have hcompute : p.model.compute (inputsOf p.assembler r.value).dense
      (p.embedInputs (inputsOf p.assembler r.value)) (p.wideInputs (inputsOf p.assembler r.value)) =
        p.model.scores (p.assembler.batch [inputsOf p.assembler r.value]) := by
    unfold Model.compute Predictor.embedInputs Predictor.wideInputs
    rw [single_inputsOf h, if_pos]
    simp only [inputsOf, ← h.embed, ← h.wide, map_indexOf_sparse, List.all_append, List.all_map,
      Function.comp_def, fitsIndex_numberOf haddressable, List.all_eq_true, Bool.and_eq_true,
      implies_true, and_self]
  have hscores := scores_batch (m := p.model) h [r.value] (by simp) z
  rw [List.map_cons, List.map_nil, List.map_cons, List.map_nil, ← hcompute] at hscores
  unfold Predictor.score
  rw [bind_eq_ok, ← hscores]
  constructor
  · rintro ⟨x, hx, hz⟩
    obtain ⟨hnamed, husable, rfl⟩ := recordInputs_eq_ok.mp hx
    exact ⟨⟨hnamed, husable⟩, hz⟩
  · rintro ⟨⟨hnamed, husable⟩, hz⟩
    exact ⟨_, recordInputs_eq_ok.mpr ⟨hnamed, husable, rfl⟩, hz⟩

/-- When a batch of records is scored, and what its scores are. -/
theorem scoreAll_eq_ok (hstorage : Documented storage) (h : ReadsColumns p.assembler p.model.layout)
    (hne : records ≠ []) {ys : List Float32} :
    p.scoreAll storage records = .ok ys ↔
      (Named p.assembler ∧ ∀ r ∈ records, Usable p.assembler r) ∧ Accepts p.model p.assembler ∧
        ys = records.map fun r => p.model.score (inputsOf p.assembler (heldIn storage records r)) := by
  have hscores := scores_batch (m := p.model) h (records.map (heldIn storage records))
    (by simpa using hne) ys
  rw [List.map_map, List.map_map] at hscores
  have hsize : ((Frame.ofRecords storage none records).size == 0) = false := by
    simpa [Frame.ofRecords] using hne
  unfold Predictor.scoreAll
  simp only [hsize, Bool.false_eq_true, if_false]
  rw [bind_eq_ok]
  constructor
  · rintro ⟨rows, hrows, hys⟩
    obtain ⟨hnamed, husable, rfl⟩ := (frameInputs_eq_ok hstorage).mp hrows
    exact ⟨⟨hnamed, husable⟩, hscores.mp hys⟩
  · rintro ⟨⟨hnamed, husable⟩, hys⟩
    exact ⟨_, (frameInputs_eq_ok hstorage).mpr ⟨hnamed, husable, rfl⟩, hscores.mpr hys⟩

/-- A batch is scored exactly if each of its records is. -/
theorem scoreAll_ok_iff (hstorage : Documented storage) (h : ReadsColumns p.assembler p.model.layout)
    (haddressable : Addressable p.assembler) (records : List RawRecord) :
    (∃ ys, p.scoreAll storage records = .ok ys) ↔ ∀ r ∈ records, ∃ z, p.score r = .ok z := by
  by_cases hne : records = []
  · subst hne
    exact ⟨by simp, fun _ => ⟨[], rfl⟩⟩
  · constructor
    · rintro ⟨ys, hys⟩ r hr
      obtain ⟨⟨hnamed, husable⟩, haccepts, -⟩ := (scoreAll_eq_ok hstorage h hne).mp hys
      exact ⟨_, (score_eq_ok h haddressable).mpr ⟨⟨hnamed, husable r hr⟩, haccepts, rfl⟩⟩
    · intro hrecords
      obtain ⟨first, hfirst⟩ := List.exists_mem_of_ne_nil records hne
      obtain ⟨z, hz⟩ := hrecords first hfirst
      obtain ⟨⟨hnamed, -⟩, haccepts, -⟩ := (score_eq_ok h haddressable).mp hz
      refine ⟨_, (scoreAll_eq_ok hstorage h hne).mpr ⟨⟨hnamed, fun r hr => ?_⟩, haccepts, rfl⟩⟩
      obtain ⟨z, hz⟩ := hrecords r hr
      exact ((score_eq_ok h haddressable).mp hz).1.2

/-- A record that is kept has the score in a batch that it has on its own. -/
theorem score_of_scoreAll (hstorage : Documented storage) (h : ReadsColumns p.assembler p.model.layout)
    (haddressable : Addressable p.assembler) {ys : List Float32} (hys : p.scoreAll storage records = .ok ys) :
    List.Forall₂ (fun r y => Kept p.assembler storage records r → p.score r = .ok [y]) records ys := by
  by_cases hne : records = []
  · subst hne
    cases hys
    exact List.Forall₂.nil
  · obtain ⟨⟨hnamed, husable⟩, haccepts, rfl⟩ := (scoreAll_eq_ok hstorage h hne).mp hys
    rw [List.forall₂_map_right_iff, List.forall₂_same]
    intro r hr hkept
    refine (score_eq_ok h haddressable).mpr ⟨⟨hnamed, husable r hr⟩, haccepts, ?_⟩
    rw [(inputsOf_heldIn_iff hstorage hr (husable r hr)).mpr hkept]

/-- Whatever is known of the storage of columns holds: a batch has inputs exactly if each of its records
has, and a record has the same inputs in both ways exactly if it is kept: no integer of more than 53
bits in it has become, beside a gap or a fraction in its column, a floating-point number of another
category. A record is kept in particular if its integers have at most 53 bits or stand in columns
without gaps and fractions or in mixed ones. A batch is scored exactly if each of its records is, and
a record that is kept has the same score in both ways. -/
theorem batch_agrees {storage : Storage} (hstorage : Documented storage) (p : Predictor)
    (records : List RawRecord) :
    ((∃ rows, p.assembler.frameInputs (Frame.ofRecords storage none records) = .ok rows) ↔
      Named p.assembler ∧ ∀ r ∈ records, ∃ x, p.assembler.recordInputs r = .ok x) ∧
    (∀ rows, p.assembler.frameInputs (Frame.ofRecords storage none records) = .ok rows →
      List.Forall₂ (fun r row => ∃ x, p.assembler.recordInputs r = .ok x ∧
        (row = x ↔ Kept p.assembler storage records r)) records rows) ∧
    (∀ r, (∀ id ∈ p.assembler.dense ++ p.assembler.embed ++ p.assembler.wide,
        Exact records (keyAt p.assembler id) (r.value (keyAt p.assembler id))) →
      Kept p.assembler storage records r) ∧
    ∀ s simple, Predictor.ofStored s simple = .ok p → Addressable p.assembler →
      ((∃ ys, p.scoreAll storage records = .ok ys) ↔ ∀ r ∈ records, ∃ z, p.score r = .ok z) ∧
      ∀ ys, p.scoreAll storage records = .ok ys →
        List.Forall₂ (fun r y => Kept p.assembler storage records r → p.score r = .ok [y])
          records ys := by
  refine ⟨frameInputs_ok_iff hstorage, fun rows hrows => row_of_frameInputs hstorage hrows,
    fun r => kept_of_exact hstorage, ?_⟩
  intro s simple hstored haddressable
  have hreads := readsColumns_of_stored hstored
  exact ⟨scoreAll_ok_iff hstorage hreads haddressable records,
    fun ys hys => score_of_scoreAll hstorage hreads haddressable hys⟩

end Predictors

section Sample

/-- A column with a code of more than 53 bits as its only label. -/
def codeColumn : ColumnStats where
  number := 0
  name := some "id"
  kind := .categorical
  mean := 0
  stddev := 1
  cutoff := 4
  boundaries := []
  labels := ["9007199254740993"]
  countEvidence := []
  weightedEvidence := []
  evidenceMean := 0
  evidenceStddev := 1
  weightedMean := 0
  weightedStddev := 1
  countEvidence_fits := rfl
  weightedEvidence_fits := rfl

/-- A model of the column that has all weights zero. -/
def codeStored : StoredModel :=
  ⟨Model.blank ⟨[], [0], [0], [⟨0, 2, 1⟩], [⟨0, 2, 1⟩], 1, [], 0⟩, [codeColumn], .zscale, 1⟩

/-- The predictor of the model. -/
def codePredictor : Predictor :=
  ⟨codeStored.model, ⟨[Feature.ofStats false codeColumn], .zscale, [], [0], [0]⟩, 1⟩

/-- The code of the label, beside a gap. -/
def codeRecords : List RawRecord :=
  [[("id", .int 9007199254740993)], [("id", .missing)]]

theorem batch_agrees_large_code : ∃ x row rows ys,
    codePredictor.assembler.recordInputs [("id", .int 9007199254740993)] = .ok x ∧
    codePredictor.assembler.frameInputs (Frame.ofRecords .scanned none codeRecords) = .ok (row :: rows) ∧
    row ≠ x ∧ codePredictor.scoreAll .scanned codeRecords = .ok ys := by
  obtain ⟨hinputs, hrows, -, hscores⟩ := batch_agrees documented_scanned codePredictor codeRecords
  have hnamed : Named codePredictor.assembler := by
    intro id hid
    have hzero : id = 0 := by simpa [codePredictor] using hid
    subst hzero
    rfl
  have hrecords : ∀ r ∈ codeRecords, Usable codePredictor.assembler r := fun r _ id hid => by cases hid
  have haccepts : Accepts codePredictor.model codePredictor.assembler := ⟨1, rfl⟩
  have hmade : Storage.scanned.makesReal (cellsOf codeRecords (some "id")) = true := by
    have hcells : cellsOf codeRecords (some "id") = [some (.int 9007199254740993), some .missing] := rfl
    rw [hcells]
    refine documented_scanned.real _ (by decide) (by decide) ?_ (by decide) (by decide)
    intro n hn
    have hcode : n = 9007199254740993 := by simpa using hn
    unfold IsWord
    omega
  have hlost : ¬Kept codePredictor.assembler .scanned codeRecords [("id", .int 9007199254740993)] := by
    intro hkept
    have hsame := hkept.sparse 0 (by decide) 9007199254740993 rfl (by decide) hmade
    revert hsame
    decide +kernel
  have haddressable : Addressable codePredictor.assembler := by
    intro f hf
    rw [List.mem_singleton.mp hf]
    decide +kernel
  obtain ⟨rows, hframe⟩ := hinputs.mpr ⟨hnamed, fun r hr =>
    ⟨_, recordInputs_eq_ok.mpr ⟨hnamed, hrecords r hr, rfl⟩⟩⟩
  have hstored : Predictor.ofStored codeStored false = .ok codePredictor := rfl
  have hreads := readsColumns_of_stored hstored
  obtain ⟨hscored, -⟩ := hscores codeStored false hstored haddressable
  obtain ⟨ys, hys⟩ := hscored.mpr fun r hr =>
    ⟨_, (score_eq_ok hreads haddressable).mpr ⟨⟨hnamed, hrecords r hr⟩, haccepts, rfl⟩⟩
  cases hrows rows hframe with
  | cons hfirst hrest =>
    obtain ⟨x, hx, hiff⟩ := hfirst
    exact ⟨x, _, _, ys, hx, hframe, fun hrow => hlost (hiff.mp hrow), hys⟩

end Sample

end WideDeep.Proofs
