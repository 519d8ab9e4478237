import Mathlib.Tactic
import WideDeep.Training
import WideDeep.Proofs.ModelFileRoundTrip

/-!
# Checkpoints are read back

The checkpoint that a run stores is the file of a model with the configured columns, whose names and
labels may be no texts. If no column is embedded or wide twice, the file is read back, plain or inside
any compressed container that expands to it, and with it every weight.
-/

namespace WideDeep.Proofs
open Binary

section Files

variable {α : Type} [Zero α] (store : α → Stored Float32) {m : Model α}

/-- What follows the version is read back, whatever the names and labels of the columns are. -/
theorem decodes_records (version : Int) (norm : NormKind) (columns : List ColumnRecord)
    (h : Coherent m.layout)
    (hroom : ∀ p ∈ m.layout.shapes, volume p.2 * 4 < 0x8000000000000000) :
    Decodes
      ([.single 0, .single 0, .double 0, .text none, .text (some norm.name), .int columns.length] ++
        (columns.flatMap ColumnRecord.fields ++ m.fields store))
      (StoredModel.readBody version)
      ⟨restoredModel store m, ColumnStatsOf.byNumber (columns.map restoredColumn), norm, version⟩ := by
  have hcolumns : Decodes (columns.flatMap ColumnRecord.fields)
      (Reader.replicate ColumnStats.read columns.length) (columns.map restoredColumn) :=
    Decodes.replicate fun c _ => Decodes.record c
  unfold StoredModel.readBody
  refine (Decodes.single _).cons <| (Decodes.single _).cons <| (Decodes.double _).cons <|
    (Decodes.text _).cons <| (Decodes.text _).cons ?_
  rw [Option.getD_some, ofName_normName]
  refine (Decodes.length _).cons <| hcolumns.append ?_
  exact (decodes_model store h hroom).last fun model =>
    (⟨model, ColumnStatsOf.byNumber (columns.map restoredColumn), norm, version⟩ : StoredModel)

/-- Bytes that do not look compressed are loaded alike from a container that expands to them. -/
lemma load_container {container bytes : Bytes} (hplain : bytes.take 2 ≠ Gzip.magic)
    (hne : bytes ≠ []) (h : container = bytes ∨ Gzip.expand container = .ok bytes) (strict : Bool) :
    StoredModel.load strict container = StoredModel.load strict bytes := by
  rcases h with rfl | hexpand
  · rfl
  · have hmagic : (container.take 2 == Gzip.magic) = true :=
      beq_iff_eq.mpr (magic_of_expand hexpand hne)
    have hbytes : (bytes.take 2 == Gzip.magic) = false := beq_eq_false_iff_ne.mpr hplain
    unfold StoredModel.load
    simp only [hmagic, hbytes, hexpand, if_true, Bool.false_eq_true, if_false]

/-- Behind the bytes of the current version, loading is reading the rest. -/
lemma load_current (strict : Bool) (rest : Bytes) :
    StoredModel.load strict (wordBytes 1 ++ rest) =
      ([], (Reader.runOn (StoredModel.readBody 1) rest).1.mapError StoredModel.asFormat) := by
  have hversion : Reader.runOn Reader.int (wordBytes 1 ++ rest) = (.ok 1, rest) :=
    (reads_int (by decide)).whole rest
  have hplain : StoredModel.readPlain strict (wordBytes 1 ++ rest) =
      ([], (Reader.runOn (StoredModel.readBody 1) rest).1) := by
    unfold StoredModel.readPlain
    rw [hversion]
    rfl
  have hopened : (if (wordBytes 1 ++ rest).take 2 == Gzip.magic then
      Gzip.expand (wordBytes 1 ++ rest) else .ok (wordBytes 1 ++ rest)) =
        .ok (wordBytes 1 ++ rest) := rfl
  unfold StoredModel.load
  simp only [hopened, hplain]

/-- A file of the current version brings what its reader makes of the bytes behind the version. -/
theorem load_of_body {fs : List Field} {result : Except Error StoredModel} {bytes container : Bytes}
    (h : ∀ rest, Field.encodeAll fs = .ok rest →
      (Reader.runOn (StoredModel.readBody 1) rest).1 = result)
    (hwrite : Field.encodeAll (.int 1 :: fs) = .ok bytes) (strict : Bool)
    (hcontainer : container = bytes ∨ Gzip.expand container = .ok bytes) :
    StoredModel.load strict container = ([], result.mapError StoredModel.asFormat) := by
  obtain ⟨head, rest, hhead, hrest, rfl⟩ := (encodeAll_cons _ _ _).mp hwrite
  rw [encode_one rfl] at hhead
  cases hhead
  have hfirst : (wordBytes 1 ++ rest).take 2 ≠ Gzip.magic := by
    have htwo : (wordBytes 1 ++ rest).take 2 = [0, 0] := rfl
    rw [htwo]
    decide
  rw [load_container hfirst (by exact List.cons_ne_nil _ _) hcontainer, load_current, h rest hrest]

/-- A file of the current version is loaded if what follows the version is read back. -/
lemma load_of_decodes {fs : List Field} {stored : StoredModel} {bytes container : Bytes}
    (h : Decodes fs (StoredModel.readBody 1) stored)
    (hwrite : Field.encodeAll (.int 1 :: fs) = .ok bytes) (strict : Bool)
    (hcontainer : container = bytes ∨ Gzip.expand container = .ok bytes) :
    StoredModel.load strict container = ([], .ok stored) := by
  have hbody : ∀ rest, Field.encodeAll fs = .ok rest →
      (Reader.runOn (StoredModel.readBody 1) rest).1 = .ok stored := by
    intro rest hrest
    have hwhole := (h rest hrest).whole []
    rw [List.append_nil] at hwhole
    rw [hwhole]
  exact load_of_body hbody hwrite strict hcontainer

end Files

section Checkpoints

variable {s : RunSetup} {m : Model Float32} {bytes : Bytes}

/-- Numbers that are stored as they are come back as they are. -/
lemma storedWeights_plain (m : Model Float32) : storedWeights Stored.plain m = m.parameters := by
  unfold storedWeights Parameters.mapValues
  refine (List.map_congr_left fun p _ => ?_).trans (List.map_id _)
  obtain ⟨name, shape, data, hsize⟩ := p
  unfold Tensor.map
  simp [Stored.plain]

/-- What a run stores is the file of the model with the weights. -/
theorem stored_eq_ok (hlayout : s.config.layout = .ok m.layout)
    (h : Training.stored s m.parameters = .ok bytes) :
    ModelFile.write Stored.plain ModelFile.currentVersion (.ok s.config.norm) s.config.columns m =
      .ok bytes := by
  have hbuild : s.config.build = .ok (Model.blank m.layout) := by
    unfold ModelConfig.build
    rw [hlayout]
    rfl
  have hself : Model.ofParameters m.layout m.parameters = m :=
    ofParameters_self (distinct_of_make (plan_eq_ok.mp hlayout).1)
  unfold Training.stored at h
  rw [hbuild, ok_bind] at h
  obtain ⟨model, hmodel, hrest⟩ := bind_eq_ok.mp h
  obtain ⟨written, hwritten, hdone⟩ := bind_eq_ok.mp hrest
  obtain ⟨-, rfl⟩ := load_eq_ok.mp hmodel
  have hwhole : Model.ofParameters (Model.blank m.layout).layout m.parameters = m := hself
  rw [hwhole] at hwritten
  split at hdone
  · cases hdone
  · cases hdone
    exact hwritten

/-- A checkpoint is loaded as the model with the weights that were stored, if its layout names no
column twice. -/
theorem load_stored (hlayout : s.config.layout = .ok m.layout) (hembed : m.layout.embed.Nodup)
    (hwide : m.layout.wide.Nodup) (h : Training.stored s m.parameters = .ok bytes) (strict : Bool)
    {container : Bytes} (hcontainer : container = bytes ∨ Gzip.expand container = .ok bytes) :
    ∃ loaded, StoredModel.load strict container = ([], .ok loaded) ∧
      loaded.model.parameters = m.parameters := by
  obtain ⟨hmake, hroom⟩ := plan_eq_ok.mp hlayout
  have hwrite := stored_eq_ok hlayout h
  unfold ModelFile.write ModelFile.fields at hwrite
  simp only [List.length_map, List.append_assoc, ← List.flatMap_def] at hwrite
  refine ⟨_, load_of_decodes (decodes_records Stored.plain 1 s.config.norm s.config.columns
    (coherent_of_make hmake hembed hwide) fun p hp => ?_) hwrite strict hcontainer,
    storedWeights_plain m⟩
  have hvolume := (hroom p hp).2
  unfold Layout.capacity at hvolume
  omega

end Checkpoints

end WideDeep.Proofs
