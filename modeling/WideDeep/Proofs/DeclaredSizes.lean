import Mathlib.Tactic
import WideDeep.Proofs.Fields
import WideDeep.Proofs.ReadValues
import WideDeep.Proofs.ReaderFaults

/-!
# Declared sizes

Data that is not compressed is a model or is refused as malformed, with one exception. A table or a
layer declares its size before its weights, as two lengths whose product nothing bounds, and the
reader asks for all the bytes at once: if they are more than a machine word counts, that is no
malformed data to the reader but a number that is too large.
-/

namespace WideDeep.Proofs

variable {β γ : Type}

section Places

/-- A reader asks for more bytes than a machine word counts. -/
def Overflows (r : Reader β) (bytes : Bytes) : Prop :=
  (Reader.runOn r bytes).1 = .error .overflow

/-- A reader takes something off these bytes, and what it gives is as said of the bytes it leaves. -/
def After (r : Reader β) (P : β → Bytes → Prop) (bytes : Bytes) : Prop :=
  ∃ v rest, Reader.runOn r bytes = (.ok v, rest) ∧ P v rest

/-- What is read of a table before its weights: the column and two lengths. -/
def tableHead : Reader (Int × Nat × Nat) := do
  let column ← Reader.int
  let rows ← Reader.length
  let width ← Reader.length
  return (column, rows, width)

/-- What is read of a layer before its weights, if it follows a layer with `previous` outputs. -/
def layerHead (position : Nat) (previous : Option Nat) : Reader (Nat × Nat) := do
  let inputs ← Reader.length
  let outputs ← Reader.length
  match previous with
  | some n => if n != inputs then Reader.fault (.layerInputs position inputs n)
  | none => pure ()
  return (inputs, outputs)

/-- A table of more weights than fit comes next. -/
def OversizedTable : Bytes → Prop :=
  After tableHead fun head _ => 0x8000000000000000 ≤ head.2.1 * head.2.2 * 4

/-- A layer of more weights than fit comes next. -/
def OversizedLayer (position : Nat) (previous : Option Nat) : Bytes → Prop :=
  After (layerHead position previous) fun head _ => 0x8000000000000000 ≤ head.2 * head.1 * 4

/-- The number of outputs of the last layer, or `previous` if there is none. -/
def outputsAfter (previous : Option Nat) (layers : List LayerRecord) : Option Nat :=
  layers.foldl (fun _ r => some r.outputs) previous

/-- What stands before the tables: the norm and the columns, and then the embedded columns, the wide
ones and the number of embedding tables. -/
def beforeTables : Reader (List Int × List Int × Nat) := do
  let _ ← Reader.single
  let _ ← Reader.single
  let _ ← Reader.double
  let _ ← Reader.text
  let name ← Reader.text
  match NormKind.ofName? name with
  | none => Reader.fault (.unknownNorm name)
  | some _ =>
    let _ ← Reader.replicate ColumnStats.read (← Reader.length)
    let _ ← Reader.ints
    let embed ← Reader.ints
    let wide ← Reader.ints
    return (embed, wide, ← Reader.length)

/-- The tables and the bias, and then the number of layers. -/
def beforeLayers (embed wide : List Int) (embedCount : Nat) : Reader Nat := do
  let embedRecords ← Reader.replicate TableRecord.readEmbed embedCount
  let embedColumns := Model.sortedInts ((TableRecord.sizes embedRecords).map (·.column))
  if embedColumns != Model.sortedInts embed then Reader.fault (.embedTables embedColumns embed)
  let wideRecords ← Reader.replicate TableRecord.readWide (← Reader.length)
  let wideColumns := Model.sortedInts ((TableRecord.sizes wideRecords).map (·.column))
  if wideColumns != Model.sortedInts wide then Reader.fault (.wideTables wideColumns wide)
  let _ ← Reader.single
  Reader.length

/-- Behind the version, one of the declared embedding tables or layers has more weights than fit,
and all before it is there. -/
def OversizedBody : Bytes → Prop :=
  After beforeTables fun (embed, wide, embedCount) rest =>
    (∃ k < embedCount,
      After (Reader.replicate TableRecord.readEmbed k) (fun _ => OversizedTable) rest) ∨
    After (beforeLayers embed wide embedCount) (fun count rest =>
      ∃ k < count, After (LayerRecord.readAll 0 none k)
        (fun layers => OversizedLayer k (outputsAfter none layers)) rest) rest

/-- A file of an accepted version that declares a table or a layer of more weights than fit. -/
def Oversized (strict : Bool) : Bytes → Prop :=
  After Reader.int fun version rest =>
    (version = ModelFile.currentVersion ∨ strict = false) ∧ OversizedBody rest

end Places

section Laws

variable {r : Reader β} {f : β → Reader γ} {P : β → Bytes → Prop}

@[simp] lemma after_pure (v : β) : After (pure v : Reader β) P = P v := by
  funext bytes
  refine propext ⟨?_, fun h => ⟨v, bytes, rfl, h⟩⟩
  rintro ⟨w, rest, hrun, h⟩
  cases hrun
  exact h

@[simp] lemma after_fault (fault : FormatFault) :
    After (Reader.fault fault : Reader β) P = fun _ => False := by
  funext bytes
  refine eq_false ?_
  rintro ⟨v, rest, hrun, -⟩
  cases hrun

/-- After two readers in sequence is after the second one, after the first one. -/
theorem after_bind {R : γ → Bytes → Prop} :
    After (r >>= f) R = After r fun v => After (f v) R := by
  funext bytes
  refine propext ⟨?_, ?_⟩
  · rintro ⟨w, rest, hrun, h⟩
    rw [runOn_bind] at hrun
    cases hfirst : Reader.runOn r bytes with
    | mk result left =>
      rw [hfirst] at hrun
      cases result with
      | error e => cases hrun
      | ok v => exact ⟨v, left, hfirst, w, rest, hrun, h⟩
  · rintro ⟨v, left, hfirst, w, rest, hrun, h⟩
    refine ⟨w, rest, ?_, h⟩
    rw [runOn_bind, hfirst]
    exact hrun

lemma after_check {c : Prop} [Decidable c] {fault : FormatFault} {k : PUnit → Reader β} :
    After (if c then (Reader.fault fault : Reader PUnit) >>= k else k ⟨⟩) P =
      fun bytes => ¬c ∧ After (k ⟨⟩) P bytes := by
  funext bytes
  by_cases hc : c
  · rw [if_pos hc, after_bind, after_fault]
    simp [hc]
  · rw [if_neg hc]
    simp [hc]

/-- Somewhere among the first places after a reader. -/
lemma after_exists {n : Nat} {Q : Nat → β → Bytes → Prop} {bytes : Bytes} :
    After r (fun v rest => ∃ k < n, Q k v rest) bytes ↔ ∃ k < n, After r (Q k) bytes := by
  constructor
  · rintro ⟨v, rest, hrun, k, hk, h⟩
    exact ⟨k, hk, v, rest, hrun, h⟩
  · rintro ⟨k, hk, v, rest, hrun, h⟩
    exact ⟨v, rest, hrun, k, hk, h⟩

end Laws

/-- A reader asks for too many bytes exactly at these places. -/
def OverflowsAt (r : Reader β) (P : Bytes → Prop) : Prop :=
  ∀ bytes, Overflows r bytes ↔ P bytes

/-- A reader that never asks for too many bytes. -/
def Bounded (r : Reader β) : Prop :=
  ∀ bytes, ¬Overflows r bytes

section Sequences

variable {r : Reader β} {f : β → Reader γ} {P : Bytes → Prop} {Q : β → Bytes → Prop}

/-- Two readers in sequence ask for too many bytes where the first one does, and where the second one
does after it. -/
theorem OverflowsAt.bind (hr : OverflowsAt r P) (hf : ∀ v, OverflowsAt (f v) (Q v)) :
    OverflowsAt (r >>= f) fun bytes => P bytes ∨ After r Q bytes := by
  intro bytes
  dsimp only
  rw [← hr bytes]
  unfold Overflows After
  rw [runOn_bind]
  cases hrun : Reader.runOn r bytes with
  | mk result rest =>
    cases result with
    | error e => simp
    | ok v => simpa [Overflows] using hf v rest

lemma OverflowsAt.congr {P' : Bytes → Prop} (hr : OverflowsAt r P) (h : ∀ bytes, P bytes ↔ P' bytes) :
    OverflowsAt r P' :=
  fun bytes => (hr bytes).trans (h bytes)

lemma OverflowsAt.check {c : Prop} [Decidable c] {fault : FormatFault} {k : PUnit → Reader β}
    (hk : ¬c → OverflowsAt (k ⟨⟩) P) :
    OverflowsAt (if c then (Reader.fault fault : Reader PUnit) >>= k else k ⟨⟩)
      fun bytes => ¬c ∧ P bytes := by
  intro bytes
  by_cases hc : c
  · rw [if_pos hc]
    refine iff_of_false ?_ fun h => h.1 hc
    intro h
    cases h
  · rw [if_neg hc, hk hc bytes]
    exact (and_iff_right hc).symm

/-- Only the first of two readers asks for too many bytes. -/
lemma OverflowsAt.bind_bounded (hr : OverflowsAt r P) (hf : ∀ v, Bounded (f v)) :
    OverflowsAt (r >>= f) P := by
  have hnowhere : ∀ v, OverflowsAt (f v) fun _ => False := fun v bytes => iff_of_false (hf v bytes) id
  refine (hr.bind hnowhere).congr fun bytes => or_iff_left ?_
  rintro ⟨v, rest, -, h⟩
  exact h

/-- Behind a reader that never asks for too many bytes, what it gives being as it is. -/
theorem Bounded.bind_yields {R : β → Prop} (hr : Bounded r) (hy : Yields R r)
    (hf : ∀ v, R v → OverflowsAt (f v) (Q v)) : OverflowsAt (r >>= f) (After r Q) := by
  intro bytes
  unfold Overflows After
  rw [runOn_bind]
  cases hrun : Reader.runOn r bytes with
  | mk result rest =>
    cases result with
    | error e =>
      have hbounded : (Reader.runOn r bytes).1 ≠ .error .overflow := hr bytes
      rw [hrun] at hbounded
      simpa using hbounded
    | ok v => simpa [Overflows] using hf v (hy bytes v rest hrun) rest

/-- Behind a reader that never asks for too many bytes. -/
lemma Bounded.bind_at (hr : Bounded r) (hf : ∀ v, OverflowsAt (f v) (Q v)) :
    OverflowsAt (r >>= f) (After r Q) :=
  hr.bind_yields (Yields.any r) fun v _ => hf v

end Sequences

namespace Bounded

variable {r : Reader β} {f : β → Reader γ} {R : β → Prop}

lemma at_nowhere (hr : Bounded r) : OverflowsAt r fun _ => False :=
  fun bytes => iff_of_false (hr bytes) id

lemma pure (v : β) : Bounded (Pure.pure v : Reader β) := by
  intro bytes h
  cases h

lemma fault (f : FormatFault) : Bounded (Reader.fault f : Reader β) := by
  intro bytes h
  cases h

theorem after (hr : Bounded r) (hy : Yields R r) (hf : ∀ v, R v → Bounded (f v)) :
    Bounded (r >>= f) := by
  intro bytes h
  have hat : OverflowsAt (r >>= f) (After r fun _ _ => False) :=
    hr.bind_yields hy fun v hv => (hf v hv).at_nowhere
  obtain ⟨v, rest, -, hfalse⟩ := (hat bytes).mp h
  exact hfalse

lemma bind (hr : Bounded r) (hf : ∀ v, Bounded (f v)) : Bounded (r >>= f) :=
  hr.after (Yields.any r) fun v _ => hf v

lemma take {count : Int} (hlow : -0x8000000000000000 ≤ count) (hhigh : count < 0x8000000000000000) :
    Bounded (Reader.take count) := by
  intro bytes h
  unfold Overflows at h
  rcases take_cases count bytes with ⟨hword, -⟩ | ⟨-, taken, rest, -, hrun⟩ | ⟨actual, rest, hrun⟩
  · omega
  · rw [hrun] at h
    cases h
  · rw [hrun] at h
    cases h

lemma int : Bounded Reader.int := (take (by decide) (by decide)).bind fun _ => pure _

lemma bool : Bounded Reader.bool := (take (by decide) (by decide)).bind fun _ => pure _

lemma single : Bounded Reader.single := (take (by decide) (by decide)).bind fun _ => pure _

lemma double : Bounded Reader.double := (take (by decide) (by decide)).bind fun _ => pure _

lemma check {c : Prop} [Decidable c] {e : FormatFault} {k : PUnit → Reader β} (hk : Bounded (k ⟨⟩)) :
    Bounded (if c then (Reader.fault e : Reader PUnit) >>= k else k ⟨⟩) :=
  fun bytes h => ((OverflowsAt.check (fun _ => hk.at_nowhere) bytes).mp h).2

lemma length : Bounded Reader.length := int.bind fun n => check (k := fun _ => Pure.pure n.toNat) (pure _)

lemma text : Bounded Reader.text := by
  refine (take (by decide) (by decide)).after (Yields.take 2) fun head hhead => ?_
  have hsize : ofBigEndian head < 256 ^ 2 := by
    have hlt := ofBigEndian_lt head
    rwa [show head.length = 2 by omega] at hlt
  refine (take (by omega) (by omega)).bind fun content => ?_
  split
  · exact pure _
  · exact fault _

/-- Values of a declared number, of so few bytes each that no number of them is too large. -/
lemma counted (size : Nat) (hsize : size ≤ 8) (g : Nat → Bytes → β) :
    Bounded (do
      let count ← Reader.length
      let bytes ← Reader.take (count * size)
      Pure.pure (g count bytes)) := by
  refine length.after Yields.length fun count hcount => ?_
  have hlt := lt_of_fitsWord hcount
  have hmul : count * size ≤ count * 8 := Nat.mul_le_mul_left _ hsize
  exact (take (by omega) (by omega)).bind fun _ => pure _

lemma doubles : Bounded Reader.doubles :=
  counted 8 le_rfl fun count bytes => (Reader.groups 8 count bytes).map ofDoubleBytes

lemma ints : Bounded Reader.ints :=
  counted 4 (by decide) fun count bytes => (Reader.groups 4 count bytes).map ofWordBytes

lemma replicate (hr : Bounded r) (n : Nat) : Bounded (Reader.replicate r n) := by
  induction n with
  | zero => exact pure []
  | succ n ih => exact hr.bind fun _ => ih.bind fun _ => pure _

lemma column : Bounded ColumnStats.read := by
  refine int.bind fun number => text.bind fun name => bool.bind fun categorical =>
    bool.bind fun numerical => doubles.bind fun boundaries => length.bind fun count =>
    (text.replicate count).bind fun labels => doubles.bind fun countEvidence =>
    doubles.bind fun weightedEvidence => double.bind fun mean => double.bind fun stddev =>
    double.bind fun evidenceMean => double.bind fun evidenceStddev =>
    double.bind fun weightedMean => double.bind fun weightedStddev =>
    double.bind fun cutoff => ?_
  split
  · exact pure _
  · exact fault _

/-- Numbers in single precision: only the number of their bytes can be too large. -/
lemma singles {n : Nat} (h : n * 4 < 0x8000000000000000) : Bounded (Reader.singles n) :=
  (take (by omega) (by omega)).bind fun _ => pure _

lemma wide : Bounded TableRecord.readWide := by
  refine int.bind fun column => length.after Yields.length fun rows hrows => ?_
  have hlt := lt_of_fitsWord hrows
  exact (singles (by omega)).bind fun _ => pure _

end Bounded

namespace OverflowsAt

variable {r : Reader β} {P : Bytes → Prop}

lemma singles (n : Nat) : OverflowsAt (Reader.singles n) fun _ => 0x8000000000000000 ≤ n * 4 := by
  intro bytes
  by_cases hroom : 0x8000000000000000 ≤ n * 4
  · refine iff_of_true ?_ hroom
    unfold Overflows Reader.singles
    rw [runOn_bind, runOn_take, if_pos (by left; omega)]
  · exact iff_of_false (Bounded.singles (not_le.mp hroom) bytes) hroom

theorem embed : OverflowsAt TableRecord.readEmbed OversizedTable := by
  unfold OversizedTable tableHead
  simp only [after_bind, after_pure]
  exact Bounded.int.bind_at fun column => Bounded.length.bind_at fun rows =>
    Bounded.length.bind_at fun width => (singles (rows * width)).bind_bounded fun _ => Bounded.pure _

/-- The weights of a layer can be too many. Its biases, as many as it has outputs, cannot. -/
theorem layer (position : Nat) (previous : Option Nat) :
    OverflowsAt (LayerRecord.read position previous) (OversizedLayer position previous) := by
  have hrest : ∀ inputs outputs : Nat, fitsWord outputs = true → OverflowsAt (do
      let weight ← Reader.singles (outputs * inputs : Nat)
      let bias ← Reader.singles outputs
      let activation ← Reader.text
      pure (⟨inputs, outputs, weight, bias, Text.lower activation⟩ : LayerRecord))
      fun _ => 0x8000000000000000 ≤ outputs * inputs * 4 := by
    intro inputs outputs houtputs
    have hlt := lt_of_fitsWord houtputs
    exact (singles (outputs * inputs)).bind_bounded fun weight =>
      (Bounded.singles (by omega)).bind fun bias => Bounded.text.bind fun _ => Bounded.pure _
  unfold OversizedLayer layerHead
  simp only [after_bind]
  refine Bounded.length.bind_at fun inputs =>
    Bounded.length.bind_yields Yields.length fun outputs houtputs => ?_
  cases previous with
  | none =>
    simp only [after_pure]
    exact hrest inputs outputs houtputs
  | some n =>
    simp only [after_check, after_pure]
    exact OverflowsAt.check fun _ => hrest inputs outputs houtputs

/-- One of several values in sequence can be where too many bytes are asked for. -/
theorem replicate (hr : OverflowsAt r P) (n : Nat) : OverflowsAt (Reader.replicate r n)
    fun bytes => ∃ k < n, After (Reader.replicate r k) (fun _ => P) bytes := by
  induction n with
  | zero =>
    refine (Bounded.pure []).at_nowhere.congr fun bytes => ?_
    simp
  | succ n ih =>
    refine (hr.bind fun v => ih.bind_bounded fun _ => Bounded.pure _).congr fun bytes => ?_
    rw [after_exists, Nat.exists_lt_succ_left]
    simp only [Reader.replicate, after_bind, after_pure]

theorem layers (position : Nat) (previous : Option Nat) (n : Nat) :
    OverflowsAt (LayerRecord.readAll position previous n) fun bytes =>
      ∃ k < n, After (LayerRecord.readAll position previous k)
        (fun layers => OversizedLayer (position + k) (outputsAfter previous layers)) bytes := by
  induction n generalizing position previous with
  | zero =>
    refine (Bounded.pure []).at_nowhere.congr fun bytes => ?_
    simp
  | succ n ih =>
    refine ((layer position previous).bind fun first =>
      (ih (position + 1) (some first.outputs)).bind_bounded fun _ => Bounded.pure _).congr
        fun bytes => ?_
    rw [after_exists, Nat.exists_lt_succ_left]
    simp only [LayerRecord.readAll, after_bind, after_pure, Nat.add_zero, Nat.add_right_comm _ 1]
    rfl

end OverflowsAt

section Files

lemma bounded_checked (c : Except FormatFault Unit) : Bounded (Model.checked c) := by
  cases c with
  | error f => exact Bounded.fault f
  | ok _ => exact Bounded.pure _

lemma bounded_liftExcept {result : Except Error β} (h : ∀ e, result = .error e → e.isValue = true) :
    Bounded (Model.read.liftExcept result) := by
  intro bytes hover
  cases result with
  | error e =>
    cases hover
    cases h _ rfl
  | ok v => cases hover

/-- The tables and layers behind the columns of a model. -/
theorem overflowsAt_model : OverflowsAt Model.read (After Reader.ints fun _ => After Reader.ints
    fun embed => After Reader.ints fun wide => After Reader.length fun embedCount rest =>
      (∃ k < embedCount,
        After (Reader.replicate TableRecord.readEmbed k) (fun _ => OversizedTable) rest) ∨
      After (beforeLayers embed wide embedCount) (fun count rest =>
        ∃ k < count, After (LayerRecord.readAll 0 none k)
          (fun layers => OversizedLayer k (outputsAfter none layers)) rest) rest) := by
  refine Bounded.ints.bind_at fun dense => Bounded.ints.bind_at fun embed =>
    Bounded.ints.bind_at fun wide => Bounded.length.bind_at fun embedCount => ?_
  unfold beforeLayers
  simp only [after_bind, after_check]
  refine (OverflowsAt.embed.replicate embedCount).bind fun embedRecords =>
    OverflowsAt.check fun hembed => ?_
  refine Bounded.length.bind_at fun wideCount =>
    (Bounded.wide.replicate wideCount).bind_at fun wideRecords =>
      OverflowsAt.check fun hwide => ?_
  refine Bounded.single.bind_at fun bias => Bounded.length.bind_at fun count => ?_
  simp only [bne_iff_ne, ne_eq, not_not] at hembed hwide
  have hlayers : OverflowsAt (LayerRecord.readAll 0 none count) fun rest =>
      ∃ k < count, After (LayerRecord.readAll 0 none k)
        (fun layers => OversizedLayer k (outputsAfter none layers)) rest := by
    have hall := OverflowsAt.layers 0 none count
    simpa only [Nat.zero_add] using hall
  refine (OverflowsAt.check fun _ => hlayers.bind_bounded fun layers => ?_).congr fun rest => ?_
  · exact Bounded.single.bind fun l2 => (bounded_checked _).bind fun _ => (bounded_checked _).bind fun _ =>
      (bounded_liftExcept fun e he => foundLayout_error hembed hwide he).bind fun layout =>
        bounded_liftExcept fun e he => load_error_isValue he
  · refine and_iff_right_of_imp ?_
    rintro ⟨k, hk, -⟩
    simpa using Nat.ne_zero_of_lt hk

/-- A model overflows at a table or a layer. -/
theorem overflowsAt_body (version : Int) : OverflowsAt (StoredModel.readBody version) OversizedBody := by
  unfold OversizedBody beforeTables
  simp only [after_bind]
  refine Bounded.single.bind_at fun _ => Bounded.single.bind_at fun _ =>
    Bounded.double.bind_at fun _ => Bounded.text.bind_at fun _ => Bounded.text.bind_at fun name => ?_
  cases NormKind.ofName? name with
  | none =>
    simp only [after_fault]
    exact (Bounded.fault _).at_nowhere
  | some norm =>
    simp only [after_bind, after_pure]
    exact Bounded.length.bind_at fun count => (Bounded.column.replicate count).bind_at fun _ =>
      overflowsAt_model.bind_bounded fun _ => Bounded.pure _

lemma readPlain_overflow {strict : Bool} {bytes : Bytes} :
    (StoredModel.readPlain strict bytes).2 = .error .overflow ↔ Oversized strict bytes := by
  have hversion := Bounded.int bytes
  unfold StoredModel.readPlain Oversized After
  cases hrun : Reader.runOn Reader.int bytes with
  | mk result rest =>
    cases result with
    | error e =>
      unfold Overflows at hversion
      rw [hrun] at hversion
      simpa using hversion
    | ok version =>
      have hbody := overflowsAt_body version rest
      unfold Overflows at hbody
      by_cases hcurrent : version = ModelFile.currentVersion
      · simp [hcurrent, ← hbody]
      · cases strict <;> simp [hcurrent, ← hbody]

/-- Data that is not compressed is a model or malformed, unless a table or a layer that it declares
has weights of more bytes than a machine word counts. -/
theorem load_plain {bytes : Bytes} (hplain : bytes.take 2 ≠ Gzip.magic) (strict : Bool) :
    (¬Oversized strict bytes →
      (∃ s, (StoredModel.load strict bytes).2 = .ok s) ∨
        ∃ f, (StoredModel.load strict bytes).2 = .error (.format f)) ∧
    (Oversized strict bytes → (StoredModel.load strict bytes).2 = .error .overflow) := by
  have hload : (StoredModel.load strict bytes).2 =
      (StoredModel.readPlain strict bytes).2.mapError StoredModel.asFormat := by
    unfold StoredModel.load
    rw [if_neg (by simpa using hplain)]
  rw [← readPlain_overflow, hload]
  cases hresult : (StoredModel.readPlain strict bytes).2 with
  | ok s => exact ⟨fun _ => Or.inl ⟨s, rfl⟩, fun h => by cases h⟩
  | error e =>
    refine ⟨fun hfits => Or.inr ?_, fun h => ?_⟩
    · rcases readPlain_error hresult with ⟨f, rfl⟩ | hvalue | rfl
      · exact ⟨f, rfl⟩
      · refine ⟨.rejected (e.message?.getD ""), ?_⟩
        unfold StoredModel.asFormat
        rw [Except.mapError, if_pos hvalue]
      · exact absurd rfl hfits
    · cases h
      rfl

end Files

section Sample

/-- A file that declares one embedding table, of as many rows and as great a width as a length can
be, and ends there. -/
def hugeTableFile : Bytes :=
  [0, 0, 0, 1, 0, 0, 0, 0, 0, 0, 0, 0, 0, 0, 0, 0, 0, 0, 0, 0, 0, 0, 0, 6, 90, 83, 67, 65, 76, 69,
    0, 0, 0, 0, 0, 0, 0, 0, 0, 0, 0, 0, 0, 0, 0, 0, 0, 0, 0, 1, 0, 0, 0, 0, 0x7f, 0xff, 0xff, 0xff,
    0x7f, 0xff, 0xff, 0xff]

lemma oversized_hugeTable : Oversized true hugeTableFile := by
  refine ⟨1, hugeTableFile.drop 4, rfl, Or.inl rfl, ([], [], 1), hugeTableFile.drop 50, rfl, Or.inl ?_⟩
  refine ⟨0, Nat.one_pos, [], _, rfl, (0, 0x7fffffff, 0x7fffffff), [], rfl, by decide⟩

theorem load_plain_hugeTable :
    (StoredModel.load true hugeTableFile).2 = .error .overflow :=
  (load_plain (by decide) true).2 oversized_hugeTable

end Sample

end WideDeep.Proofs
