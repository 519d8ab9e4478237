import Mathlib.Tactic
import WideDeep.Proofs.ModelCodec

/-!
# Model files are read back

What has been written into a model file is read back from the file, plain or inside any compressed
container that expands to it.
-/

namespace WideDeep.Proofs
open Binary

section Containers

/-- A container that expands to anything begins with the mark of compressed files. -/
theorem magic_of_expand {container bytes : Bytes} (h : Gzip.expand container = .ok bytes)
    (hne : bytes ≠ []) : container.take 2 = Gzip.magic := by
  unfold Gzip.expand Gzip.members at h
  by_cases hempty : container.isEmpty = true
  · rw [if_pos hempty] at h
    cases h
    exact absurd rfl hne
  · rw [if_neg hempty] at h
    obtain ⟨first, hmember, -⟩ := bind_eq_ok.mp h
    unfold Gzip.member at hmember
    cases hheader : Gzip.skipHeader? container with
    | none =>
      rw [hheader] at hmember
      cases hmember
    | some stream =>
      have hthree : container.take 3 = [0x1f, 0x8b, 8] := by
        by_contra hother
        unfold Gzip.skipHeader? at hheader
        cases hskip : Gzip.skip? 10 container with
        | none => simp [hskip] at hheader
        | some rest => simp [hskip, hother] at hheader
      have htwo : container.take 2 = (container.take 3).take 2 := by
        rw [List.take_take]
        rfl
      rw [htwo, hthree]
      rfl

end Containers

section Files

variable {α : Type} [Zero α] (store : α → Stored Float32) {m : Model α}

lemma ofName_normName (k : NormKind) : NormKind.ofName? k.name = some k := by
  cases k <;> decide

/-- What follows the version is read back. -/
theorem decodes_body (version : Int) (norm : NormKind)
    {columns : List (ColumnStatsOf String (Stored Float))} (h : Coherent m.layout)
    (hroom : ∀ p ∈ m.layout.shapes, volume p.2 * 4 < 0x8000000000000000)
    (hnumbers : (columns.map (·.number)).Nodup) (hnames : ∀ c ∈ columns, c.name.isSome = true) :
    Decodes
      ([.single 0, .single 0, .double 0, .text none, .text (some norm.name), .int columns.length] ++
        (columns.flatMap (ColumnStatsOf.fieldsWith (fun s => .text (some s)) id) ++ m.fields store))
      (StoredModel.readBody version)
      ⟨restoredModel store m, columns.map (·.map id fun x => x.value), norm, version⟩ := by
  have hcolumns : Decodes
      (columns.flatMap (ColumnStatsOf.fieldsWith (fun s => .text (some s)) id))
      (Reader.replicate ColumnStats.read columns.length)
      (columns.map (·.map id fun x => x.value)) :=
    Decodes.replicate fun c hc => Decodes.column c (hnames c hc)
  have hdistinct : ColumnStatsOf.byNumber (columns.map (·.map id fun x : Stored Float => x.value)) =
      columns.map (·.map id fun x => x.value) := by
    refine byNumber_of_nodup ?_
    rwa [List.map_map]
  unfold StoredModel.readBody
  refine (Decodes.single _).cons <| (Decodes.single _).cons <| (Decodes.double _).cons <|
    (Decodes.text _).cons <| (Decodes.text _).cons ?_
  rw [Option.getD_some, ofName_normName]
  refine (Decodes.length _).cons <| hcolumns.append ?_
  have hmodel := (decodes_model store h hroom).last fun model =>
    (⟨model, columns.map (·.map id fun x => x.value), norm, version⟩ : StoredModel)
  rw [hdistinct]
  exact hmodel

/-- A model file that could be written is read back whole: the kind of normalization, the statistics
of the columns, the layout of the model, and every weight. Only the regularization is rounded to
single precision. The bytes of a tensor are as many as a machine word counts, as those of every
tensor in memory are. -/
theorem load_write (spec : LayoutSpec) (hlayout : Layout.make spec = .ok m.layout)
    (hroom : ∀ p ∈ m.layout.shapes, volume p.2 * 4 < 0x8000000000000000)
    (hembed : m.layout.embed.Nodup) (hwide : m.layout.wide.Nodup)
    (norm : NormKind) (columns : List (ColumnStatsOf String (Stored Float)))
    (hnumbers : (columns.map (·.number)).Nodup) (hnames : ∀ c ∈ columns, c.name.isSome = true)
    (bytes : Bytes)
    (hwrite : ModelFile.write store 1 (.ok norm) (columns.map (·.map .text id)) m = .ok bytes)
    (strict : Bool) (container : Bytes)
    (hcontainer : container = bytes ∨ Gzip.expand container = .ok bytes) :
    StoredModel.load strict container =
      ([], .ok ⟨restoredModel store m, columns.map (·.map id fun x => x.value), norm, 1⟩) := by
  have hfields : (columns.map (·.map Document.text id)).map ColumnRecord.fields =
      columns.map (ColumnStatsOf.fieldsWith (fun s => .text (some s)) id) := by
    rw [List.map_map]
    exact List.map_congr_left fun c _ => fields_map_text c
  unfold ModelFile.write ModelFile.fields at hwrite
  simp only [hfields, List.length_map, List.append_assoc] at hwrite
  obtain ⟨head, rest, hhead, hrest, rfl⟩ := (encodeAll_cons _ _ _).mp hwrite
  rw [encode_one rfl] at hhead
  cases hhead
  have hversion : Reader.runOn Reader.int (wordBytes 1 ++ rest) = (.ok 1, rest) :=
    (reads_int (by decide)).whole rest
  have hbody : Reader.runOn (StoredModel.readBody 1) rest =
      (.ok ⟨restoredModel store m, columns.map (·.map id fun x => x.value), norm, 1⟩, []) := by
    have hread := decodes_body store 1 norm (coherent_of_make hlayout hembed hwide)
      hroom hnumbers hnames rest hrest
    have hwhole := hread.whole []
    rwa [List.append_nil] at hwhole
  have hplain : StoredModel.readPlain strict (wordBytes 1 ++ rest) =
      ([], .ok ⟨restoredModel store m, columns.map (·.map id fun x => x.value), norm, 1⟩) := by
    unfold StoredModel.readPlain
    rw [hversion]
    simp only [hbody]
    rfl
  have hopened : (if container.take 2 == Gzip.magic then Gzip.expand container
      else .ok container) = .ok (wordBytes 1 ++ rest) := by
    rcases hcontainer with rfl | hexpand
    · rfl
    · have hmagic := magic_of_expand hexpand (by exact List.cons_ne_nil _ _)
      rw [if_pos (beq_iff_eq.mpr hmagic), hexpand]
  unfold StoredModel.load
  simp only [hopened, hplain]
  rfl

end Files

section Sample

/-- The layout of a model with one embedded and wide column and one hidden layer. -/
def smallLayout : Layout where
  dense := [3]
  embed := [1]
  wide := [1]
  embedTables := [⟨1, 3, 2⟩]
  wideTables := [⟨1, 3, 1⟩]
  inputs := 3
  hidden := [(1, .relu)]
  l2 := .plain 0.5

/-- What the layout is made from. -/
def smallSpec : LayoutSpec where
  categories := [(1, 2)]
  dense := [.int 3]
  embed := [.int 1]
  embedWidths := [.int 2]
  wide := [.int 1]
  hidden := [.int 1]
  activations := [.text "relu"]
  l2 := .real 0.5

/-- A model with one and a half for every weight. -/
def smallModel : Model (Stored Float32) :=
  Model.ofParameters smallLayout
    (smallLayout.shapes.map fun p => (p.1, Tensor.replicate p.2 (.plain 1.5)))

/-- The column that the model embeds. -/
def smallColumn : ColumnStatsOf String (Stored Float) where
  number := 1
  name := some "colour"
  kind := .categorical
  mean := 0
  stddev := .plain 1
  cutoff := .plain 4
  boundaries := []
  labels := ["red", "blue"]
  countEvidence := [.plain 0.25, .plain 0.5, .plain nan]
  weightedEvidence := []
  evidenceMean := 0
  evidenceStddev := .plain 1
  weightedMean := 0
  weightedStddev := .plain 1
  countEvidence_fits := rfl
  weightedEvidence_fits := rfl

set_option maxRecDepth 10000 in
lemma write_small_isOk :
    (ModelFile.write id 1 (.ok .zscale) [smallColumn.map .text id] smallModel).isOk = true := by
  decide +kernel

theorem load_write_small : ∃ bytes,
    ModelFile.write id 1 (.ok .zscale) [smallColumn.map .text id] smallModel = .ok bytes ∧
    StoredModel.load true bytes =
      ([], .ok ⟨restoredModel id smallModel, [smallColumn.map id fun x => x.value], .zscale, 1⟩) := by
  cases hwrite : ModelFile.write id 1 (.ok .zscale) [smallColumn.map .text id] smallModel with
  | error e =>
    have hok := write_small_isOk
    rw [hwrite] at hok
    cases hok
  | ok bytes =>
    exact ⟨bytes, rfl, load_write id smallSpec rfl (by decide) (by decide) (by decide) .zscale
      [smallColumn] (by decide) (by decide) bytes hwrite true bytes (Or.inl rfl)⟩

end Sample

end WideDeep.Proofs
