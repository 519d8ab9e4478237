import Mathlib.Tactic
import WideDeep.Proofs.CheckpointFiles

/-!
# Files that are cut short

A reader that takes exactly the bytes of what was written finds out when some of them are missing. It
need not accept every model for that: where a table is named twice, or has more weights than fit, it
refuses the whole file, and then no part of the file was in question.
-/

namespace WideDeep.Proofs
open Binary

variable {β γ : Type}

/-- Nothing is read off these bytes, whatever follows them. -/
def Rejects (r : Reader β) (bytes : Bytes) : Prop :=
  ∀ rest v left, Reader.runOn r (bytes ++ rest) ≠ (.ok v, left)

/-- Whenever these fields can be written, the reader takes exactly their bytes, or it reads nothing
off them. -/
def Frames (fs : List Field) (r : Reader β) : Prop :=
  ∀ bytes, Field.encodeAll fs = .ok bytes → (∃ v, Reads r bytes v) ∨ Rejects r bytes

section Rejection

variable {r : Reader β} {bytes : Bytes}

lemma Rejects.bind (h : Rejects r bytes) (f : β → Reader γ) : Rejects (r >>= f) bytes := by
  intro rest w left hrun
  rw [runOn_bind] at hrun
  cases hfirst : Reader.runOn r (bytes ++ rest) with
  | mk result after =>
    rw [hfirst] at hrun
    cases result with
    | error e => cases hrun
    | ok v => exact h rest v after hfirst

/-- What is rejected behind bytes that are taken is rejected with them. -/
lemma Rejects.after {f : β → Reader γ} {taken : Bytes} {v : β} (hr : Reads r taken v)
    (h : Rejects (f v) bytes) : Rejects (r >>= f) (taken ++ bytes) := by
  intro rest w left hrun
  rw [runOn_bind, List.append_assoc, hr.whole] at hrun
  exact h rest w left hrun

lemma rejects_fault (f : FormatFault) (bytes : Bytes) : Rejects (Reader.fault f : Reader β) bytes := by
  intro rest v left hrun
  cases hrun

end Rejection

namespace Frames

variable {fs gs : List Field} {r : Reader β} {f : β → Reader γ}

lemma of_decodes {v : β} (h : Decodes fs r v) : Frames fs r :=
  fun bytes hbytes => Or.inl ⟨v, h bytes hbytes⟩

lemma pure (v : β) : Frames [] (Pure.pure v : Reader β) :=
  of_decodes (Decodes.pure v)

/-- Readers in sequence, when it is known what the first one gives. -/
theorem after {v : β} (hr : Decodes fs r v) (hf : Frames gs (f v)) : Frames (fs ++ gs) (r >>= f) := by
  intro bytes hbytes
  obtain ⟨b₁, b₂, hfs, hgs, rfl⟩ := (encodeAll_append _ _ _).mp hbytes
  rcases hf b₂ hgs with ⟨w, hw⟩ | hreject
  · exact Or.inl ⟨w, (hr b₁ hfs).bind hw⟩
  · exact Or.inr (hreject.after (hr b₁ hfs))

lemma cons {field : Field} {v : β} (hr : Decodes [field] r v) (hf : Frames gs (f v)) :
    Frames (field :: gs) (r >>= f) :=
  after hr hf

/-- Readers in sequence, whatever the first one gives. -/
theorem bind (hr : Frames fs r) (hf : ∀ v, Frames gs (f v)) : Frames (fs ++ gs) (r >>= f) := by
  intro bytes hbytes
  obtain ⟨b₁, b₂, hfs, hgs, rfl⟩ := (encodeAll_append _ _ _).mp hbytes
  rcases hr b₁ hfs with ⟨v, hv⟩ | hreject
  · rcases hf v b₂ hgs with ⟨w, hw⟩ | hrest
    · exact Or.inl ⟨w, hv.bind hw⟩
    · exact Or.inr (hrest.after hv)
  · refine Or.inr fun rest w left hrun => ?_
    rw [List.append_assoc] at hrun
    exact hreject.bind f (b₂ ++ rest) w left hrun

/-- A reader that takes nothing off the bytes goes on, or ends there. -/
lemma bind_silent (hr : Frames [] r) (hf : ∀ v, Frames gs (f v)) : Frames gs (r >>= f) :=
  hr.bind hf

lemma last (hr : Frames fs r) (g : β → γ) : Frames fs (r >>= fun x => Pure.pure (g x)) := by
  have h : Frames (fs ++ []) (r >>= fun x => Pure.pure (g x)) := hr.bind fun v => pure (g v)
  rwa [List.append_nil] at h

lemma fault (fs : List Field) (e : FormatFault) : Frames fs (Reader.fault e : Reader β) :=
  fun bytes _ => Or.inr (rejects_fault e bytes)

/-- A check refuses what follows it, or lets it be read. -/
lemma check {c : Prop} [Decidable c] {e : FormatFault} {k : PUnit → Reader β} (hk : Frames fs (k ⟨⟩)) :
    Frames fs (if c then (Reader.fault e : Reader PUnit) >>= k else k ⟨⟩) := by
  by_cases hc : c
  · rw [if_pos hc]
    exact fun bytes _ => Or.inr ((rejects_fault e bytes).bind k)
  · rw [if_neg hc]
    exact hk

/-- A reader run once for each of several parts. -/
theorem replicate {α : Type} {parts : α → List Field} {xs : List α}
    (h : ∀ x ∈ xs, Frames (parts x) r) :
    Frames (xs.flatMap parts) (Reader.replicate r xs.length) := by
  induction xs with
  | nil => exact pure []
  | cons x xs ih =>
    have hfirst := h x List.mem_cons_self
    have hrest := ih fun y hy => h y (List.mem_cons_of_mem x hy)
    rw [List.flatMap_cons]
    exact hfirst.bind fun _ => hrest.last _

/-- Single precision numbers are read by their count, unless their bytes are more than a machine word
counts. -/
theorem singles {xs : List (Stored Float32)} {count : Int} (hcount : count = xs.length) :
    Frames [.singles xs] (Reader.singles count) := by
  by_cases hroom : xs.length * 4 < 0x8000000000000000
  · exact of_decodes (Decodes.singles hcount hroom)
  · refine fun bytes _ => Or.inr fun rest v left hrun => ?_
    unfold Reader.singles at hrun
    rw [runOn_bind, runOn_take, if_pos (by omega)] at hrun
    cases hrun

end Frames

section Parts

variable {α : Type} [Zero α] (store : α → Stored Float32) {m : Model α}

lemma frames_embed {column : Int} {rows width : Nat}
    (hshape : (m.parameters.tensor (.embedding column)).shape = [rows, width]) :
    Frames (Model.embedFields store m column) TableRecord.readEmbed := by
  have hsize := (m.parameters.tensor (.embedding column)).size_eq
  unfold Model.embedFields TableRecord.readEmbed
  simp only [hshape, List.headD_cons, List.getD_cons_succ, List.getD_cons_zero]
  refine Frames.cons (Decodes.int _) <| Frames.cons (Decodes.length _) <|
    Frames.cons (Decodes.length _) <| (Frames.singles ?_).last _
  rw [List.length_map, hsize, hshape]
  simp [volume]

lemma frames_wide {column : Int} {rows : Nat}
    (hshape : (m.parameters.tensor (.wide column)).shape = [rows, 1]) :
    Frames (Model.wideFields store m column) TableRecord.readWide := by
  have hsize := (m.parameters.tensor (.wide column)).size_eq
  unfold Model.wideFields TableRecord.readWide
  simp only [hshape, List.headD_cons]
  refine Frames.cons (Decodes.int _) <| Frames.cons (Decodes.length _) <| (Frames.singles ?_).last _
  rw [List.length_map, hsize, hshape]
  simp [volume]

lemma frames_layer {position : Nat} (s : LayerSize) (previous : Option Nat)
    (hweight : (m.parameters.tensor (.deepWeight position)).shape = [s.outputs, s.inputs])
    (hbias : (m.parameters.tensor (.deepBias position)).shape = [s.outputs]) :
    Frames
      [.int s.inputs, .int s.outputs,
        .singles ((m.parameters.tensor (.deepWeight position)).data.map store),
        .singles ((m.parameters.tensor (.deepBias position)).data.map store),
        .text (some s.activation.name)]
      (LayerRecord.read position previous) := by
  have hweights : Frames [.singles ((m.parameters.tensor (.deepWeight position)).data.map store)]
      (Reader.singles (s.outputs * s.inputs : Nat)) := by
    refine Frames.singles ?_
    rw [List.length_map, (m.parameters.tensor (.deepWeight position)).size_eq, hweight]
    simp [volume]
  have hbiases : Frames [.singles ((m.parameters.tensor (.deepBias position)).data.map store)]
      (Reader.singles s.outputs) := by
    refine Frames.singles ?_
    rw [List.length_map, (m.parameters.tensor (.deepBias position)).size_eq, hbias]
    simp [volume]
  have hrest : Frames
      [.singles ((m.parameters.tensor (.deepWeight position)).data.map store),
        .singles ((m.parameters.tensor (.deepBias position)).data.map store),
        .text (some s.activation.name)]
      (do
        let weight ← Reader.singles (s.outputs * s.inputs : Nat)
        let bias ← Reader.singles s.outputs
        let activation ← Reader.text
        pure (⟨s.inputs, s.outputs, weight, bias, Text.lower activation⟩ : LayerRecord)) :=
    hweights.bind fun _ => hbiases.bind fun _ => (Frames.of_decodes (Decodes.text _)).last _
  unfold LayerRecord.read
  refine Frames.cons (Decodes.length _) <| Frames.cons (Decodes.length _) ?_
  cases previous with
  | none => exact hrest
  | some n => exact Frames.check hrest

lemma frames_layers (position : Nat) (previous : Option Nat) (layers : List LayerSize)
    (hshape : ∀ p ∈ Layout.layerShapes position layers, (m.parameters.tensor p.1).shape = p.2) :
    Frames (Model.layerFields store m position layers)
      (LayerRecord.readAll position previous layers.length) := by
  induction layers generalizing position previous with
  | nil => exact Frames.pure []
  | cons s rest ih =>
    have hfirst := frames_layer store s previous (hshape _ List.mem_cons_self)
      (hshape _ (List.mem_cons_of_mem _ List.mem_cons_self))
    exact hfirst.bind fun first => (ih (position + 1) (some first.outputs) fun p hp =>
      hshape p (List.mem_cons_of_mem _ (List.mem_cons_of_mem _ hp))).last _

lemma frames_checked (c : Except FormatFault Unit) : Frames [] (Model.checked c) := by
  cases c with
  | error f => exact Frames.fault [] f
  | ok _ => exact Frames.pure _

lemma frames_liftExcept (result : Except Error β) : Frames [] (Model.read.liftExcept result) := by
  cases result with
  | error e =>
    refine fun bytes _ => Or.inr fun rest v left hrun => ?_
    cases hrun
  | ok v => exact Frames.pure v

/-- The reader of a model takes exactly the fields of the model, or refuses them. -/
theorem frames_model {spec : LayoutSpec} (hlayout : Layout.make spec = .ok m.layout) :
    Frames (m.fields store) Model.read := by
  have hshape : ∀ p ∈ m.layout.shapes, (m.parameters.tensor p.1).shape = p.2 := fun p hp =>
    shape_tensor (names_nodup (distinct_of_make hlayout)) m.parameters_fit hp
  have hembed : Frames (m.layout.embed.flatMap (Model.embedFields store m))
      (Reader.replicate TableRecord.readEmbed m.layout.embed.length) := by
    refine Frames.replicate fun column hcolumn => ?_
    obtain ⟨t, ht, rfl⟩ := embedTable_of_make hlayout column hcolumn
    exact frames_embed store (hshape _ (mem_shapes_embed ht))
  have hwide : Frames (m.layout.wide.flatMap (Model.wideFields store m))
      (Reader.replicate TableRecord.readWide m.layout.wide.length) := by
    refine Frames.replicate fun column hcolumn => ?_
    obtain ⟨t, ht, rfl⟩ := wideTable_of_make hlayout column hcolumn
    have hrows := hshape _ (mem_shapes_wide ht)
    rw [wideWidth_of_make hlayout t ht] at hrows
    exact frames_wide store hrows
  have hlayers : Frames (Model.layerFields store m 0 m.layout.layers)
      (LayerRecord.readAll 0 none m.layout.layers.length) :=
    frames_layers store 0 none m.layout.layers fun p hp => hshape p (mem_shapes_layers hp)
  unfold Model.fields Model.read
  simp only [List.append_assoc, List.cons_append, List.nil_append]
  refine Frames.cons (Decodes.ints _) <| Frames.cons (Decodes.ints _) <|
    Frames.cons (Decodes.ints _) <| Frames.cons (Decodes.length _) <| hembed.bind fun tables => ?_
  refine Frames.check <| Frames.cons (Decodes.length _) <| hwide.bind fun wides => ?_
  refine Frames.check <| Frames.cons (Decodes.single _) <| Frames.cons (Decodes.length _) ?_
  refine Frames.check <| hlayers.bind fun layers => Frames.cons (Decodes.single _) ?_
  exact (frames_checked _).bind_silent fun _ => (frames_checked _).bind_silent fun _ =>
    (frames_liftExcept _).bind_silent fun layout => frames_liftExcept _

/-- What follows the version of a file is taken exactly, or refused. -/
theorem frames_body {spec : LayoutSpec} (hlayout : Layout.make spec = .ok m.layout) (version : Int)
    (norm : Except Error NormKind) (columns : List ColumnRecord) :
    Frames
      ([.single 0, .single 0, .double 0, .text none,
          (match norm with
          | .ok k => .text (some k.name)
          | .error e => .refused e),
          .int columns.length] ++
        (columns.flatMap ColumnRecord.fields ++ m.fields store))
      (StoredModel.readBody version) := by
  have hcolumns : Decodes (columns.flatMap ColumnRecord.fields)
      (Reader.replicate ColumnStats.read columns.length) (columns.map restoredColumn) :=
    Decodes.replicate fun c _ => Decodes.record c
  have hbody : ∀ (field : Field) (k : NormKind), Decodes [field] Reader.text k.name →
      Frames
        ([.single 0, .single 0, .double 0, .text none, field, .int columns.length] ++
          (columns.flatMap ColumnRecord.fields ++ m.fields store))
        (StoredModel.readBody version) := by
    intro field k hname
    unfold StoredModel.readBody
    simp only [List.cons_append, List.nil_append]
    refine Frames.cons (Decodes.single _) <| Frames.cons (Decodes.single _) <|
      Frames.cons (Decodes.double _) <| Frames.cons (Decodes.text _) <| Frames.cons hname ?_
    rw [ofName_normName]
    exact Frames.cons (Decodes.length _) <| Frames.after hcolumns <| (frames_model store hlayout).last _
  cases norm with
  | ok k => exact hbody _ k (Decodes.text (some k.name))
  | error e => exact hbody _ .zscale (Decodes.refused e _ _)

end Parts

section Files

variable {α : Type} [Zero α] (store : α → Stored Float32) {m : Model α}

/-- A file that ends before its version is there is malformed. -/
lemma load_short (strict : Bool) (rest : Bytes) {k : Nat} (hk : k < 4) :
    ∃ f, StoredModel.load strict ((wordBytes 1 ++ rest).take k) = ([], .error (.format f)) := by
  have hversion : (wordBytes 1 ++ rest).take k = (wordBytes 1).take k :=
    List.take_append_of_le_length hk.le
  have hplain : (((wordBytes 1).take k).take 2 == Gzip.magic) = false := by
    interval_cases k <;> rfl
  obtain ⟨f, hfault⟩ := (reads_int (n := 1) (by decide)).cut k hk
  refine ⟨f, ?_⟩
  rw [hversion]
  unfold StoredModel.load StoredModel.readPlain
  simp only [hplain, Bool.false_eq_true, if_false]
  cases hrun : Reader.runOn Reader.int ((wordBytes 1).take k) with
  | mk result left =>
    rw [hrun] at hfault
    cases hfault
    rfl

/-- No model is read off a part of a file that is written and accepted as a whole: wherever the file
is cut, what is left is malformed. -/
theorem load_truncated (spec : LayoutSpec) (hlayout : Layout.make spec = .ok m.layout)
    (norm : Except Error NormKind) (columns : List ColumnRecord) (bytes : Bytes)
    (hwrite : ModelFile.write store 1 norm columns m = .ok bytes) (strict : Bool)
    (notices : List Notice) (loaded : StoredModel)
    (hload : StoredModel.load strict bytes = (notices, .ok loaded)) (k : Nat) (hk : k < bytes.length)
    (checking : Bool) :
    ∃ f, StoredModel.load checking (bytes.take k) = ([], .error (.format f)) := by
  unfold ModelFile.write ModelFile.fields at hwrite
  simp only [List.length_map, List.append_assoc, ← List.flatMap_def] at hwrite
  obtain ⟨head, rest, hhead, hrest, rfl⟩ := (encodeAll_cons _ _ _).mp hwrite
  rw [encode_one rfl] at hhead
  cases hhead
  by_cases hversion : k < 4
  · exact load_short checking rest hversion
  rw [load_current] at hload
  rcases frames_body store hlayout 1 norm columns rest hrest with ⟨v, hread⟩ | hreject
  · have hshort : k - 4 < rest.length := by
      rw [List.length_append, length_wordBytes] at hk
      omega
    obtain ⟨f, hfault⟩ := hread.cut (k - 4) hshort
    refine ⟨f, ?_⟩
    rw [List.take_append, length_wordBytes,
      List.take_of_length_le (by rw [length_wordBytes]; omega), load_current, hfault]
    rfl
  · -- the whole file would be rejected, but it has been accepted
    cases hrun : Reader.runOn (StoredModel.readBody 1) rest with
    | mk result left =>
      cases result with
      | error e =>
        rw [hrun] at hload
        cases hload
      | ok v =>
        rw [← List.append_nil rest] at hrun
        exact absurd hrun (hreject [] v left)

end Files

section Sample

lemma length_write_small :
    (ModelFile.write id 1 (.ok .zscale) [smallColumn.map .text id] smallModel).map List.length =
      .ok 309 := by
  decide +kernel

lemma load_small {bytes : Bytes}
    (h : ModelFile.write id 1 (.ok .zscale) [smallColumn.map .text id] smallModel = .ok bytes) :
    ∃ loaded, StoredModel.load true bytes = ([], .ok loaded) := by
  have hcoherent : Coherent smallModel.layout :=
    coherent_of_make (s := smallSpec) rfl (by decide) (by decide)
  have hread := decodes_records id 1 .zscale [smallColumn.map .text id] hcoherent (by decide)
  unfold ModelFile.write ModelFile.fields at h
  simp only [List.length_map, List.append_assoc, ← List.flatMap_def] at h
  exact ⟨_, load_of_decodes hread h true (Or.inl rfl)⟩

/-- Without its last byte the file is malformed. -/
theorem load_truncated_small : ∃ bytes,
    ModelFile.write id 1 (.ok .zscale) [smallColumn.map .text id] smallModel = .ok bytes ∧
    bytes.length = 309 ∧ (∃ loaded, StoredModel.load true bytes = ([], .ok loaded)) ∧
    ∃ f, StoredModel.load true (bytes.take 308) = ([], .error (.format f)) := by
  obtain ⟨bytes, hwrite, hlength⟩ := map_eq_ok.mp length_write_small
  obtain ⟨loaded, hload⟩ := load_small hwrite
  exact ⟨bytes, hwrite, hlength, ⟨loaded, hload⟩, load_truncated id smallSpec rfl (.ok .zscale)
    [smallColumn.map .text id] bytes hwrite true [] loaded hload 308 (by omega) true⟩

end Sample

end WideDeep.Proofs
