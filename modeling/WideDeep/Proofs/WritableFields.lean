import Mathlib.Tactic
import WideDeep.Proofs.ColumnCodec
import WideDeep.Proofs.LayoutRebuild
import WideDeep.Proofs.ParameterSets

/-!
# What can be written

A field can be written if its value has room in its bytes. A column, and the tables and layers of a
model, can be written if each of their fields can.
-/

namespace WideDeep.Proofs
open Binary

/-- These fields can be written. -/
def Writable (fs : List Field) : Prop :=
  ∃ bytes, Field.encodeAll fs = .ok bytes

/-- A text has no more bytes than two bytes can count. -/
def Short (s : String) : Prop :=
  s.toUTF8.data.toList.length ≤ 0xffff

/-- The sizes of a shape are words, and its bytes are as many as a machine word counts. -/
def FitsFile (shape : List Nat) : Prop :=
  (∀ n ∈ shape, fitsWord n = true) ∧ volume shape * 4 < 0x8000000000000000

namespace Writable

variable {α : Type} {f : Field} {fs gs : List Field}

lemma nil : Writable [] := ⟨[], rfl⟩

theorem append (h₁ : Writable fs) (h₂ : Writable gs) : Writable (fs ++ gs) := by
  obtain ⟨b₁, hfs⟩ := h₁
  obtain ⟨b₂, hgs⟩ := h₂
  exact ⟨b₁ ++ b₂, (encodeAll_append _ _ _).mpr ⟨b₁, b₂, hfs, hgs, rfl⟩⟩

lemma cons (h₁ : Writable [f]) (h₂ : Writable gs) : Writable (f :: gs) :=
  h₁.append h₂

theorem flatMap {parts : α → List Field} {xs : List α} (h : ∀ x ∈ xs, Writable (parts x)) :
    Writable (xs.flatMap parts) := by
  induction xs with
  | nil => exact nil
  | cons x xs ih =>
    rw [List.flatMap_cons]
    exact (h x List.mem_cons_self).append (ih fun y hy => h y (List.mem_cons_of_mem x hy))

lemma of_encode {bytes : Bytes} (h : f.encode = .ok bytes) : Writable [f] :=
  ⟨bytes, by rw [encodeAll_singleton, h]⟩

lemma int {n : Int} (h : fitsWord n = true) : Writable [.int n] :=
  of_encode ((encode_one rfl).trans (word_eq_ok.mpr ⟨h, rfl⟩))

lemma bool (b : Bool) : Writable [.bool b] :=
  of_encode (encode_one rfl)

lemma double (x : Stored Float) : Writable [.double x] :=
  of_encode (encode_one rfl)

lemma text {s : String} (h : Short s) : Writable [.text (some s)] :=
  of_encode (text_eq_ok.mpr ⟨_, rfl, h, rfl⟩)

lemma noText : Writable [.text none] :=
  of_encode ((encode_two rfl).mpr ⟨_, _, rfl, rfl, rfl⟩)

lemma singles (xs : List (Stored Float32)) : Writable [.singles xs] :=
  of_encode (encode_one rfl)

lemma doubles {xs : List (Stored Float)} (h : fitsWord xs.length = true) : Writable [.doubles xs] :=
  of_encode ((encode_two rfl).mpr ⟨_, _, word_eq_ok.mpr ⟨h, rfl⟩, rfl, rfl⟩)

lemma ints {ns : List Int} (h : fitsWord ns.length = true ∧ ns.all fitsWord = true) :
    Writable [.ints ns] :=
  of_encode ((encode_two rfl).mpr ⟨_, _, word_eq_ok.mpr ⟨h.1, rfl⟩, if_pos h.2, rfl⟩)

/-- A widened single precision number loses nothing when it is written, so it is not too large. -/
theorem single {x : Stored Float} (h : ∃ y, x.value = Binary.widen y) : Writable [.single x] := by
  obtain ⟨y, hy⟩ := h
  refine of_encode (encode_one (p := .ok (singleBytes x.narrow)) ?_)
  have hback : x.narrow.widen.value = x.value := by
    change Binary.widen (Binary.narrow x.value) = x.value
    rw [hy, narrow_widen]
  rw [Field.pieces, if_neg]
  rw [hback]
  simp

end Writable

section Columns

/-- Statistics with a name, whose number, name, labels and lengths have room in a file. -/
structure WritableColumn (c : ColumnStats) : Prop where
  number : fitsWord c.number = true
  name : ∃ s, c.name = some s ∧ Short s
  boundaries : fitsWord c.boundaries.length = true
  labels : fitsWord c.labels.length = true ∧ ∀ s ∈ c.labels, Short s
  countEvidence : fitsWord c.countEvidence.length = true
  weightedEvidence : fitsWord c.weightedEvidence.length = true

lemma toRecord_eq (c : ColumnStats) : c.toRecord = (c.map id Stored.plain).map .text id := by
  unfold ColumnStats.toRecord ColumnStatsOf.map
  simp

theorem writable_column {c : ColumnStats} (h : WritableColumn c) : Writable c.toRecord.fields := by
  obtain ⟨name, hname, hshort⟩ := h.name
  rw [toRecord_eq, fields_map_text]
  unfold ColumnStatsOf.fieldsWith ColumnStatsOf.map
  simp only [hname, Option.map_some, Option.getD_some, id_eq, List.map_id]
  have hlabels : Writable (c.labels.map fun s => Field.text (some s)) := by
    rw [List.map_eq_flatMap]
    exact Writable.flatMap fun s hs => Writable.text (h.labels.2 s hs)
  refine Writable.append (Writable.append ?_ hlabels) ?_
  · refine (Writable.int h.number).cons <| (Writable.text hshort).cons <| (Writable.bool _).cons <|
      (Writable.bool _).cons <| (Writable.doubles ?_).cons <| Writable.int h.labels.1
    rw [List.length_map]
    exact h.boundaries
  · refine (Writable.doubles ?_).cons <| (Writable.doubles ?_).cons <| (Writable.double _).cons <|
      (Writable.double _).cons <| (Writable.double _).cons <| (Writable.double _).cons <|
      (Writable.double _).cons <| (Writable.double _).cons <| Writable.double _
    · rw [List.length_map]
      exact h.countEvidence
    · rw [List.length_map]
      exact h.weightedEvidence

end Columns

section Models

/-- A layout whose columns and sizes have room in a file, and whose regularization has been read from
one. -/
structure WritableLayout (l : Layout) : Prop where
  dense : fitsWord l.dense.length = true ∧ l.dense.all fitsWord = true
  embed : fitsWord l.embed.length = true ∧ l.embed.all fitsWord = true
  wide : fitsWord l.wide.length = true ∧ l.wide.all fitsWord = true
  shapes : ∀ p ∈ l.shapes, FitsFile p.2
  layers : fitsWord l.layers.length = true
  l2 : ∃ y, l.l2 = restoredL2 (Binary.widen y)

lemma short_name (a : Activation) : Short a.name := by
  unfold Short
  cases a <;> decide

lemma short_normName (k : NormKind) : Short k.name := by
  unfold Short
  cases k <;> decide

/-- A regularization that has been read is a widened number. -/
lemma exists_widen_restoredL2 (y : Float32) :
    ∃ z, (restoredL2 (Binary.widen y)).value = Binary.widen z := by
  unfold restoredL2
  by_cases hzero : (Binary.widen y == 0) = true
  · rw [if_pos hzero]
    exact ⟨0, by decide⟩
  · rw [if_neg hzero]
    exact ⟨y, rfl⟩

variable {m : Model Float32}

lemma writable_layers (position : Nat) {layers : List LayerSize}
    (h : ∀ p ∈ Layout.layerShapes position layers, FitsFile p.2) :
    Writable (Model.layerFields Stored.plain m position layers) := by
  induction layers generalizing position with
  | nil => exact Writable.nil
  | cons s rest ih =>
    have hweight : FitsFile [s.outputs, s.inputs] := h (.deepWeight position, _) List.mem_cons_self
    have hlater : ∀ p ∈ Layout.layerShapes (position + 1) rest, FitsFile p.2 := fun p hp =>
      h p (List.mem_cons_of_mem _ (List.mem_cons_of_mem _ hp))
    refine Writable.append ?_ (ih (position + 1) hlater)
    exact (Writable.int (hweight.1 _ (by simp))).cons <| (Writable.int (hweight.1 _ (by simp))).cons <|
      (Writable.singles _).cons <| (Writable.singles _).cons <| Writable.text (short_name _)

/-- A model can be written if its layout can be. -/
theorem writable_model (hcoherent : Coherent m.layout) (h : WritableLayout m.layout) :
    Writable (m.fields Stored.plain) := by
  have hnodup := names_nodup (distinct_of_coherent hcoherent)
  have hembed : Writable (m.layout.embed.flatMap (Model.embedFields Stored.plain m)) := by
    refine Writable.flatMap fun c hc => ?_
    have hfits := List.all_eq_true.mp h.embed.2 c hc
    rw [← hcoherent.embed_columns] at hc
    obtain ⟨t, ht, rfl⟩ := List.mem_map.mp hc
    have hshape := shape_tensor hnodup m.parameters_fit (mem_shapes_embed ht)
    have hsizes := (h.shapes _ (mem_shapes_embed ht)).1
    unfold Model.embedFields
    simp only [hshape, List.headD_cons, List.getD_cons_succ, List.getD_cons_zero]
    exact (Writable.int hfits).cons <| (Writable.int (hsizes _ (by simp))).cons <|
      (Writable.int (hsizes _ (by simp))).cons <| Writable.singles _
  have hwide : Writable (m.layout.wide.flatMap (Model.wideFields Stored.plain m)) := by
    refine Writable.flatMap fun c hc => ?_
    have hfits := List.all_eq_true.mp h.wide.2 c hc
    rw [← hcoherent.wide_columns] at hc
    obtain ⟨t, ht, rfl⟩ := List.mem_map.mp hc
    have hshape := shape_tensor hnodup m.parameters_fit (mem_shapes_wide ht)
    have hsizes := (h.shapes _ (mem_shapes_wide ht)).1
    unfold Model.wideFields
    simp only [hshape, List.headD_cons]
    exact (Writable.int hfits).cons <| (Writable.int (hsizes _ (by simp))).cons <| Writable.singles _
  have hlayers : Writable (Model.layerFields Stored.plain m 0 m.layout.layers) :=
    writable_layers 0 fun p hp => h.shapes p (mem_shapes_layers hp)
  have hl2 : ∃ z, m.layout.l2.value = Binary.widen z := by
    obtain ⟨y, hy⟩ := h.l2
    rw [hy]
    exact exists_widen_restoredL2 y
  unfold Model.fields
  simp only [List.append_assoc, List.cons_append, List.nil_append]
  exact (Writable.ints h.dense).cons <| (Writable.ints h.embed).cons <| (Writable.ints h.wide).cons <|
    (Writable.int h.embed.1).cons <| hembed.append <| (Writable.int h.wide.1).cons <| hwide.append <|
    (Writable.single ⟨_, rfl⟩).cons <| (Writable.int h.layers).cons <| hlayers.append <|
    Writable.single hl2

end Models

end WideDeep.Proofs
