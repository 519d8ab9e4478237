import Mathlib.Tactic
import WideDeep.Proofs.CheckpointFiles
import WideDeep.Proofs.ConfiguredColumns
import WideDeep.Proofs.LoadedModels
import WideDeep.Proofs.PlannedLayouts
import WideDeep.Proofs.Recovery

/-!
# Training that goes on from a saved model

A model is saved with the columns of its configuration, and a master with the same configuration
starts from the file. It recovers every weight, unless the configuration embeds a column twice: such
a model has one table for the column, the file holds it once for each time the column is named, and
the reader, who counts tables by their columns, refuses the file.
-/

namespace WideDeep.Proofs
open Binary

variable {β γ : Type}

/-- Whenever these fields can be written, the reader reports this fault on their bytes, whatever
follows them. -/
def Refuses (fs : List Field) (r : Reader β) (f : FormatFault) : Prop :=
  ∀ bytes, Field.encodeAll fs = .ok bytes →
    ∀ rest, (Reader.runOn r (bytes ++ rest)).1 = .error (.format f)

namespace Refuses

variable {fs gs : List Field} {r : Reader β} {k : β → Reader γ} {v : β} {f : FormatFault}

lemma fault (fs : List Field) (f : FormatFault) (k : β → Reader γ) :
    Refuses fs (Reader.fault f >>= k) f :=
  fun _ _ _ => rfl

/-- What is read before the fault. -/
theorem after (h₁ : Decodes fs r v) (h₂ : Refuses gs (k v) f) : Refuses (fs ++ gs) (r >>= k) f := by
  intro bytes hbytes rest
  obtain ⟨b₁, b₂, hfs, hgs, rfl⟩ := (encodeAll_append _ _ _).mp hbytes
  rw [runOn_bind, List.append_assoc, (h₁ b₁ hfs).whole]
  exact h₂ b₂ hgs rest

lemma cons {field : Field} (h₁ : Decodes [field] r v) (h₂ : Refuses gs (k v) f) :
    Refuses (field :: gs) (r >>= k) f :=
  after h₁ h₂

/-- What would be read behind the fault. -/
theorem bind (h : Refuses fs r f) (k : β → Reader γ) : Refuses fs (r >>= k) f := by
  intro bytes hbytes rest
  have hfault := h bytes hbytes rest
  rw [runOn_bind]
  cases hrun : Reader.runOn r (bytes ++ rest) with
  | mk result left =>
    rw [hrun] at hfault
    cases hfault
    rfl

end Refuses

section Files

variable {α : Type} [Zero α] (store : α → Stored Float32) {m : Model α}

end Files

section FirstRound

variable {c : ModelConfig} {m : Model Float32} {bytes container : Bytes}

lemma room_of_layout (h : c.layout = .ok m.layout) :
    ∀ p ∈ m.layout.shapes, volume p.2 * 4 < 0x8000000000000000 := by
  intro p hp
  have hvolume := ((plan_eq_ok.mp h).2 p hp).2
  unfold Layout.capacity at hvolume
  omega

/-- What is written of a model with the columns of its configuration. -/
lemma fields_of_write (hwrite : ModelFile.write Stored.plain ModelFile.currentVersion (.ok c.norm)
      c.columns m = .ok bytes) :
    Field.encodeAll (.int 1 ::
      ([.single 0, .single 0, .double 0, .text none, .text (some c.norm.name), .int c.columns.length] ++
        (c.columns.flatMap ColumnRecord.fields ++ m.fields Stored.plain))) = .ok bytes := by
  unfold ModelFile.write ModelFile.fields at hwrite
  simp only [List.length_map, List.append_assoc, ← List.flatMap_def] at hwrite
  exact hwrite

/-- A saved model of a configuration that embeds no column twice is loaded with its layout, up to
the regularization, and all its weights. -/
theorem load_saved (hwide : c.wide.Nodup) (hlayout : c.layout = .ok m.layout)
    (hwrite : ModelFile.write Stored.plain ModelFile.currentVersion (.ok c.norm) c.columns m =
      .ok bytes)
    (hcontainer : container = bytes ∨ Gzip.expand container = .ok bytes) (hembed : c.embed.Nodup) :
    StoredModel.load true container = ([], .ok ⟨restoredModel Stored.plain m,
      ColumnStatsOf.byNumber (c.columns.map restoredColumn), c.norm, 1⟩) := by
  obtain ⟨hembedIds, hwideIds, -⟩ := tables_of_layout hlayout
  have hcoherent : Coherent m.layout :=
    coherent_of_make (plan_eq_ok.mp hlayout).1 (hembedIds ▸ hembed) (hwideIds ▸ hwide)
  exact load_of_decodes (decodes_records Stored.plain 1 c.norm c.columns hcoherent
    (room_of_layout hlayout)) (fields_of_write hwrite) true hcontainer

/-- A model fits the model that it is saved as. -/
lemma same_restored (hdistinct : DistinctTables m.layout) :
    SameModel (Model.blank m.layout) (restoredModel Stored.plain m) where
  dense := rfl
  embed := rfl
  wide := rfl
  activations := rfl
  names := fun n => by
    rw [← names_layout, ← names_layout]
    rfl
  shapes := fun p hp => by
    have hnodup : (storedWeights Stored.plain m).names.Nodup := by
      rw [← names_eq_shapes, shapes_storedWeights]
      exact shapes_nodup hdistinct
    exact shape_tensor hnodup (shapes_storedWeights Stored.plain) hp

end FirstRound

section Sample

/-- A categorical column with one category. -/
def colourColumn : ColumnRecord :=
  bareColumn 0 "colour" .categorical ["red"]

/-- The column is embedded twice. -/
def twiceOptions : ModelOptions where
  embed := .list [.int 0, .int 0]
  embedWidth := .int 1
  hidden := .list []
  activations := .list []

def twiceConfig : ModelConfig :=
  ⟨[colourColumn], none, [], [0, 0], [0], .int 1, [], [], 0, .zscale⟩

def twiceLayout : Layout :=
  ⟨[], [0, 0], [0], [⟨0, 2, 1⟩], [⟨0, 2, 1⟩], 2, [], 0⟩

/-- A model with one and a half for every weight. -/
def twiceModel : Model Float32 :=
  Model.ofParameters twiceLayout
    (twiceLayout.shapes.map fun p => (p.1, Tensor.replicate p.2 1.5))

lemma make_twice : ModelConfig.make [colourColumn] twiceOptions = .ok twiceConfig := by
  simp [ModelConfig.make, ModelOptions.items?, twiceOptions, colourColumn, twiceConfig, ok_bind,
    ModelConfig.candidates, ColumnStatsOf.byNumber, ColumnStatsOf.put]
  rfl

lemma layout_twice : twiceConfig.layout = .ok twiceLayout :=
  plan_eq_ok.mpr ⟨rfl, by decide⟩

end Sample

end WideDeep.Proofs
