import Mathlib.Tactic
import WideDeep.Proofs.CheckpointFiles
import WideDeep.Proofs.LoadedModels
import WideDeep.Proofs.WritableFields

/-!
# Saving what has been loaded

Whatever bytes a model is loaded from, all that has been read has room in a file. So the model can be
saved, and what is loaded from there is the model itself: what the reader makes uniform, it leaves as
it is the second time.
-/

namespace WideDeep.Proofs
open Binary

section Columns

/-- What is accepted as statistics are the statistics given. -/
lemma make_eq_ok {L N : Type} {shownName : String} {number : Int} {name : Option L} {kind : ColumnKind}
    {mean stddev cutoff evidenceMean evidenceStddev weightedMean weightedStddev : N}
    {boundaries countEvidence weightedEvidence : List N} {labels : List L} {c : ColumnStatsOf L N}
    (h : ColumnStatsOf.make shownName number name kind mean stddev cutoff boundaries labels
      countEvidence weightedEvidence evidenceMean evidenceStddev weightedMean weightedStddev = .ok c) :
    ∃ hc hw, c = ⟨number, name, kind, mean, stddev, cutoff, boundaries, labels, countEvidence,
      weightedEvidence, evidenceMean, evidenceStddev, weightedMean, weightedStddev, hc, hw⟩ := by
  unfold ColumnStatsOf.make at h
  dsimp only at h
  split at h
  · split at h
    · cases h
      exact ⟨_, _, rfl⟩
    · cases h
  · cases h

theorem yields_column : Yields WritableColumn ColumnStats.read := by
  refine Yields.int.bind fun number hnumber => Yields.text.bind fun name hname =>
    (Yields.any _).bind fun _ _ => (Yields.any _).bind fun _ _ =>
    Yields.doubles.bind fun boundaries hboundaries => Yields.length.bind fun count hcount =>
    (Yields.text.replicate count).bind fun labels hlabels =>
    Yields.doubles.bind fun countEvidence hcountEvidence =>
    Yields.doubles.bind fun weightedEvidence hweightedEvidence =>
    (Yields.any _).bind fun _ _ => (Yields.any _).bind fun _ _ => (Yields.any _).bind fun _ _ =>
    (Yields.any _).bind fun _ _ => (Yields.any _).bind fun _ _ => (Yields.any _).bind fun _ _ =>
    (Yields.any _).bind fun _ _ => ?_
  split
  · rename_i c hmake
    obtain ⟨hc, hw, rfl⟩ := make_eq_ok hmake
    have hlabelCount : fitsWord labels.length = true := hlabels.1 ▸ hcount
    exact Yields.pure ⟨hnumber, ⟨name, rfl, hname⟩, hboundaries, ⟨hlabelCount, hlabels.2⟩,
      hcountEvidence, hweightedEvidence⟩
  · exact Yields.fault _

/-- A column with a name comes back as it is. -/
lemma restoredColumn_toRecord {c : ColumnStats} (hname : c.name.isSome = true) :
    restoredColumn c.toRecord = c := by
  have hnamed : (c.map id Stored.plain).name.isSome = true := by
    unfold ColumnStatsOf.map
    rwa [Option.isSome_map]
  have hvalue : (fun x : Stored Float => x.value) ∘ Stored.plain = id := rfl
  rw [toRecord_eq, restoredColumn_text _ hnamed]
  unfold ColumnStatsOf.map
  simp [hvalue, Stored.plain]

end Columns

section Records

/-- A table as it is read. -/
def FittingTable (r : TableRecord) : Prop :=
  FitsFile [r.size.rows, r.size.width]

/-- A layer as it is read. -/
def FittingLayer (r : LayerRecord) : Prop :=
  FitsFile [r.outputs, r.inputs] ∧ FitsFile [r.outputs]

lemma fits_matrix {rows columns : Nat} (hrows : fitsWord rows = true) (hcolumns : fitsWord columns = true)
    (hroom : rows * columns * 4 < 0x8000000000000000) : FitsFile [rows, columns] := by
  refine ⟨?_, ?_⟩
  · simp [hrows, hcolumns]
  · rwa [volume, volume, volume, Nat.mul_one]

lemma fits_vector {n : Nat} (h : fitsWord n = true) : FitsFile [n] := by
  have hlt := lt_of_fitsWord h
  refine ⟨by simp [h], ?_⟩
  rw [volume, volume, Nat.mul_one]
  omega

theorem yields_embed : Yields FittingTable TableRecord.readEmbed := by
  refine (Yields.any _).bind fun column _ => Yields.length.bind fun rows hrows =>
    Yields.length.bind fun width hwidth => (Yields.singles _).bind fun data hdata => Yields.pure ?_
  exact fits_matrix hrows hwidth hdata.2

theorem yields_wide : Yields FittingTable TableRecord.readWide := by
  refine (Yields.any _).bind fun column _ => Yields.length.bind fun rows hrows =>
    (Yields.singles _).bind fun data hdata => Yields.pure ?_
  have hone : fitsWord ((1 : Nat) : Int) = true := by decide
  refine fits_matrix hrows hone ?_
  rw [Nat.mul_one]
  exact hdata.2

theorem yields_layer (position : Nat) (previous : Option Nat) :
    Yields FittingLayer (LayerRecord.read position previous) := by
  have hrest : ∀ inputs outputs : Nat, fitsWord inputs = true → fitsWord outputs = true →
      Yields FittingLayer (do
        let weight ← Reader.singles (outputs * inputs : Nat)
        let bias ← Reader.singles outputs
        let activation ← Reader.text
        pure (⟨inputs, outputs, weight, bias, Text.lower activation⟩ : LayerRecord)) := by
    intro inputs outputs hinputs houtputs
    exact (Yields.singles _).bind fun weight hweight => (Yields.any _).bind fun bias _ =>
      (Yields.any _).bind fun activation _ =>
      Yields.pure ⟨fits_matrix houtputs hinputs hweight.2, fits_vector houtputs⟩
  refine Yields.length.bind fun inputs hinputs => Yields.length.bind fun outputs houtputs => ?_
  cases previous with
  | none => exact hrest inputs outputs hinputs houtputs
  | some n => exact Yields.check fun _ => hrest inputs outputs hinputs houtputs

theorem yields_layers (position : Nat) (previous : Option Nat) (n : Nat) :
    Yields (fun rs => rs.length = n ∧ ∀ r ∈ rs, FittingLayer r)
      (LayerRecord.readAll position previous n) := by
  induction n generalizing position previous with
  | zero => exact Yields.pure ⟨rfl, fun r hr => by cases hr⟩
  | succ n ih =>
    refine (yields_layer position previous).bind fun first hfirst =>
      (ih (position + 1) (some first.outputs)).bind fun rest hrest => Yields.pure ⟨?_, ?_⟩
    · rw [List.length_cons, hrest.1]
    · exact List.forall_mem_cons.mpr ⟨hfirst, hrest.2⟩

end Records

section Weights

variable {ps : Parameters Float32} {p : ParamName × Tensor Float32}

lemma shape_ofList {α : Type} [Zero α] (shape : List Nat) (data : List α) :
    (Tensor.ofList shape data).shape = shape := by
  unfold Tensor.ofList Tensor.ofList?
  split <;> rfl

lemma mem_distinct (h : p ∈ Model.read.distinct ps) : p ∈ ps := by
  induction ps with
  | nil => exact h
  | cons q rest ih =>
    rcases List.mem_cons.mp h with rfl | hrest
    · exact List.mem_cons_self
    · exact List.mem_cons_of_mem q (ih (List.mem_of_mem_filter hrest))

lemma fits_tableWeights {name : Int → ParamName} {tables : List TableRecord}
    (h : ∀ r ∈ tables, FittingTable r) (hp : p ∈ TableRecord.weights name tables) :
    FitsFile p.2.shape := by
  obtain ⟨r, hr, rfl⟩ := List.mem_map.mp hp
  rw [shape_ofList]
  exact h r (List.mem_reverse.mp hr)

lemma fits_layerWeights {position : Nat} {layers : List LayerRecord}
    (h : ∀ r ∈ layers, FittingLayer r) (hp : p ∈ LayerRecord.weights position layers) :
    FitsFile p.2.shape := by
  induction layers generalizing position with
  | nil => cases hp
  | cons r rest ih =>
    have hfirst := h r List.mem_cons_self
    rcases List.mem_cons.mp hp with rfl | hp
    · rw [shape_ofList]
      exact hfirst.1
    · rcases List.mem_cons.mp hp with rfl | hrest
      · rw [shape_ofList]
        exact hfirst.2
      · exact ih (fun q hq => h q (List.mem_cons_of_mem r hq)) hrest

/-- The tensors that the reader collects have room in a file. -/
theorem fits_collected {bias : Float32} {embedRecords wideRecords : List TableRecord}
    {layers : List LayerRecord} (hembed : ∀ r ∈ embedRecords, FittingTable r)
    (hwide : ∀ r ∈ wideRecords, FittingTable r) (hlayers : ∀ r ∈ layers, FittingLayer r)
    (hp : p ∈ (ParamName.wideBias, Tensor.ofList [1] [bias]) ::
      Model.read.distinct (TableRecord.weights .embedding embedRecords ++
        TableRecord.weights .wide wideRecords) ++ LayerRecord.weights 0 layers) :
    FitsFile p.2.shape := by
  rcases List.mem_append.mp hp with hp | hp
  · rcases List.mem_cons.mp hp with rfl | hp
    · rw [shape_ofList]
      exact fits_vector (by decide)
    · rcases List.mem_append.mp (mem_distinct hp) with hp | hp
      · exact fits_tableWeights hembed hp
      · exact fits_tableWeights hwide hp
  · exact fits_layerWeights hlayers hp

end Weights

section Layouts

lemma fitsWord_of_le {m n : Nat} (hle : m ≤ n) (h : fitsWord n = true) : fitsWord m = true := by
  have hlt := lt_of_fitsWord h
  unfold fitsWord
  simp only [Bool.and_eq_true, decide_eq_true_eq]
  omega

/-- A regularization that is read from a number of a file. -/
lemma regularization_real {x : Float} {l2 : Stored Float}
    (h : Layout.regularization (.real x) = .ok l2) : l2 = restoredL2 x := by
  unfold Layout.regularization Document.isAbsent at h
  unfold restoredL2
  by_cases hzero : (x == 0) = true
  · rw [if_pos hzero] at h
    rw [if_pos hzero]
    exact (Except.ok.inj h).symm
  · rw [if_neg hzero] at h
    rw [if_neg hzero]
    exact (Except.ok.inj h).symm

/-- The second time, the regularization is read as it is. -/
lemma restoredL2_again (y : Float32) :
    restoredL2 (widen (narrow (restoredL2 (widen y)).value)) = restoredL2 (widen y) := by
  by_cases hzero : (widen y == 0) = true
  · have hfirst : restoredL2 (widen y) = 0 := if_pos hzero
    have hback : (widen (narrow 0) == 0) = true := by decide
    rw [hfirst]
    exact if_pos hback
  · have hfirst : restoredL2 (widen y) = .plain (widen y) := if_neg hzero
    rw [hfirst]
    change restoredL2 (widen (narrow (widen y))) = _
    rw [narrow_widen, hfirst]

/-- What is read of a model can be written. -/
theorem yields_writable : Yields (fun m : Model Float32 => WritableLayout m.layout) Model.read := by
  refine Yields.ints.bind fun dense hdense => Yields.ints.bind fun embed hembed =>
    Yields.ints.bind fun wide hwide => (Yields.any _).bind fun embedCount _ =>
    (yields_embed.replicate embedCount).bind fun embedRecords hembedRecords => Yields.check fun _ =>
    (Yields.any _).bind fun wideCount _ =>
    (yields_wide.replicate wideCount).bind fun wideRecords hwideRecords => Yields.check fun _ =>
    (Yields.any _).bind fun bias _ => Yields.length.bind fun count hcount =>
    Yields.check fun hsome => (yields_layers 0 none count).bind fun layers hlayers =>
    (Yields.any _).bind fun l2 _ => (Yields.any _).bind fun _ _ => (Yields.any _).bind fun _ _ =>
    (Yields.liftExcept _).bind fun layout hlayout => ?_
  obtain ⟨hembedColumns, hwideColumns⟩ := columns_of_make rfl rfl hlayout
  have hmade := madeFrom_of_make hlayout
  have hdenseRead := hmade.dense
  have hl2 := hmade.l2
  obtain ⟨sizes, activations, hsizes, -, hhidden⟩ := hmade.hidden
  rw [mapM_toInt] at hdenseRead
  rw [mapM_layerSize] at hsizes
  have hdepth : layout.hidden.length ≤ layers.dropLast.length := by
    rw [hhidden, ← Except.ok.inj hsizes, List.length_zip, List.length_map]
    exact Nat.min_le_left _ _
  have hlength : layout.layers.length ≤ count := by
    have hpos : count ≠ 0 := by simpa using hsome
    rw [Layout.layers, length_layersFrom]
    rw [List.length_dropLast, hlayers.1] at hdepth
    omega
  intro bytes m rest hrun
  have hload := Yields.liftExcept _ bytes m rest hrun
  obtain ⟨hcheck, rfl⟩ := load_eq_ok.mp hload
  obtain ⟨hnames, -, hshapes⟩ := check_eq_ok.mp hcheck
  refine ⟨?_, ?_, ?_, fun p hp => ?_, fitsWord_of_le hlength hcount, ⟨l2, regularization_real hl2⟩⟩
  · change fitsWord layout.dense.length = true ∧ layout.dense.all fitsWord = true
    rw [← Except.ok.inj hdenseRead]
    exact hdense
  · change fitsWord layout.embed.length = true ∧ layout.embed.all fitsWord = true
    rw [hembedColumns]
    exact hembed
  · change fitsWord layout.wide.length = true ∧ layout.wide.all fitsWord = true
    rw [hwideColumns]
    exact hwide
  · rw [← hshapes p hp]
    have hmem := mem_tensor (hnames p.1 (List.mem_map_of_mem hp))
    exact fits_collected hembedRecords.2 hwideRecords.2 hlayers.2 hmem

end Layouts

section Files

/-- A stored model that has been read: its columns and its layout have room in a file. -/
structure Resavable (version : Int) (s : StoredModel) : Prop where
  version_eq : s.version = version
  count : fitsWord s.columns.length = true
  columns : ∀ c ∈ s.columns, WritableColumn c
  numbers : (s.columns.map (·.number)).Nodup
  layout : WritableLayout s.model.layout

theorem yields_resavable (version : Int) :
    Yields (Resavable version) (StoredModel.readBody version) := by
  refine (Yields.any _).bind fun _ _ => (Yields.any _).bind fun _ _ =>
    (Yields.any _).bind fun _ _ => (Yields.any _).bind fun _ _ =>
    (Yields.any _).bind fun name _ => ?_
  split
  · exact Yields.fault _
  · refine Yields.length.bind fun count hcount =>
      (yields_column.replicate count).bind fun columns hcolumns =>
      yields_writable.bind fun model hmodel => Yields.pure ⟨rfl, ?_, ?_, byNumber_nodup columns, hmodel⟩
    · refine fitsWord_of_le ?_ hcount
      rw [← hcolumns.1]
      exact length_byNumber_le columns
    · intro c hc
      exact hcolumns.2 c ((puts_column.mem_foldl hc).resolve_left List.not_mem_nil)

lemma model_ext {α : Type} {m n : Model α} (hlayout : m.layout = n.layout)
    (hparameters : m.parameters = n.parameters) : m = n := by
  cases m
  cases n
  cases hlayout
  cases hparameters
  rfl

/-- A model that has been read comes back as it is. -/
lemma restoredModel_self {m : Model Float32} (h : WritableLayout m.layout) :
    restoredModel Stored.plain m = m := by
  refine model_ext ?_ (storedWeights_plain m)
  obtain ⟨y, hy⟩ := h.l2
  have hl2 : restoredL2 (widen (narrow m.layout.l2.value)) = m.layout.l2 := by
    rw [hy, restoredL2_again]
  change { m.layout with l2 := restoredL2 (widen (narrow m.layout.l2.value)) } = m.layout
  rw [hl2]

/-- Whatever bytes a model has been loaded from, it can be written, with its columns and its norm, and
what is loaded from there is the same: norm, columns, layout and every weight. -/
theorem load_resaved {bytes : Bytes} {notices : List Notice} {s : StoredModel}
    (h : StoredModel.load true bytes = (notices, .ok s)) :
    ∃ again, ModelFile.write Stored.plain ModelFile.currentVersion (.ok s.norm)
        (s.columns.map ColumnStats.toRecord) s.model = .ok again ∧
      StoredModel.load true again = ([], .ok s) := by
  have hloaded : (StoredModel.load true bytes).2 = .ok s := congrArg Prod.snd h
  have hcoherent := load_coherent hloaded
  obtain ⟨version, hsave, hcurrent⟩ := load_yields yields_resavable hloaded
  have hversion : s.version = 1 := hsave.version_eq.trans (hcurrent rfl)
  have hfields : Writable (.int 1 ::
      ([.single 0, .single 0, .double 0, .text none, .text (some s.norm.name),
        .int (s.columns.map ColumnStats.toRecord).length] ++
        ((s.columns.map ColumnStats.toRecord).flatMap ColumnRecord.fields ++
          s.model.fields Stored.plain))) := by
    have hcolumns : Writable ((s.columns.map ColumnStats.toRecord).flatMap ColumnRecord.fields) := by
      rw [List.flatMap_map]
      exact Writable.flatMap fun c hc => writable_column (hsave.columns c hc)
    have hcount : fitsWord (s.columns.map ColumnStats.toRecord).length = true := by
      rw [List.length_map]
      exact hsave.count
    have hzero : ∃ y, (0 : Stored Float).value = widen y := ⟨0, by decide⟩
    simp only [List.cons_append, List.nil_append]
    exact (Writable.int (by decide)).cons <| (Writable.single hzero).cons <|
      (Writable.single hzero).cons <| (Writable.double _).cons <| Writable.noText.cons <|
      (Writable.text (short_normName _)).cons <| (Writable.int hcount).cons <|
      hcolumns.append (writable_model hcoherent hsave.layout)
  obtain ⟨again, hagain⟩ := hfields
  refine ⟨again, ?_, ?_⟩
  · unfold ModelFile.write ModelFile.fields
    simp only [List.length_map, List.append_assoc, ← List.flatMap_def] at hagain ⊢
    exact hagain
  · have hread := decodes_records Stored.plain 1 s.norm (s.columns.map ColumnStats.toRecord) hcoherent
      fun p hp => (hsave.layout.shapes p hp).2
    have hcolumns : ColumnStatsOf.byNumber
        ((s.columns.map ColumnStats.toRecord).map restoredColumn) = s.columns := by
      have hsame : (s.columns.map ColumnStats.toRecord).map restoredColumn = s.columns := by
        rw [List.map_map]
        refine (List.map_congr_left fun c hc => ?_).trans (List.map_id _)
        obtain ⟨name, hname, -⟩ := (hsave.columns c hc).name
        exact restoredColumn_toRecord (Option.isSome_iff_exists.mpr ⟨name, hname⟩)
      rw [hsame]
      exact byNumber_of_nodup hsave.numbers
    have hload := load_of_decodes hread hagain true (Or.inl rfl)
    rw [hcolumns, restoredModel_self hsave.layout, ← hversion] at hload
    exact hload

end Files

section Sample

/-- A file that no writer writes: it holds two tables of one wide column, the name of the activation in
capitals, a regularization of minus zero, and one more byte. -/
def looseFile : Bytes :=
  [0, 0, 0, 1, 0, 0, 0, 0, 0, 0, 0, 0, 0, 0, 0, 0, 0, 0, 0, 0, 0, 0, 0, 6, 90, 83, 67, 65, 76, 69,
    0, 0, 0, 0, 0, 0, 0, 0, 0, 0, 0, 0, 0, 0, 0, 1, 0, 0, 0, 0, 0, 0, 0, 0, 0, 0, 0, 2, 0, 0, 0,
    0, 0, 0, 0, 1, 63, 128, 0, 0, 0, 0, 0, 0, 0, 0, 0, 1, 64, 0, 0, 0, 0, 0, 0, 0, 0, 0, 0, 1, 0,
    0, 0, 0, 0, 0, 0, 1, 63, 0, 0, 0, 0, 6, 76, 73, 78, 69, 65, 82, 128, 0, 0, 0, 7]

set_option maxRecDepth 10000 in
lemma load_loose_isOk : (StoredModel.load true looseFile).2.isOk = true := by
  decide +kernel

theorem load_resaved_loose : ∃ notices s again,
    StoredModel.load true looseFile = (notices, .ok s) ∧
    ModelFile.write Stored.plain ModelFile.currentVersion (.ok s.norm)
      (s.columns.map ColumnStats.toRecord) s.model = .ok again ∧
    StoredModel.load true again = ([], .ok s) := by
  have hloaded := load_loose_isOk
  cases hload : StoredModel.load true looseFile with
  | mk notices result =>
    rw [hload] at hloaded
    cases result with
    | error e => cases hloaded
    | ok s =>
      obtain ⟨again, hwrite, hagain⟩ := load_resaved hload
      exact ⟨notices, s, again, rfl, hwrite, hagain⟩

end Sample

end WideDeep.Proofs
