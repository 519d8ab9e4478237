import Mathlib.Tactic
import WideDeep.ModelFile.Reader
import WideDeep.Proofs.LayoutTables
import WideDeep.Proofs.Reading

/-!
# How reading fails

Whatever the bytes are, the reader of a model file fails with a fault in the data, with one in the
compressed stream, or with a number of bytes that no machine word holds.
-/

namespace WideDeep.Proofs

variable {β γ : Type}

/-- Errors that a reader may end with: a fault in the data, a value that does not fit, or a count
beyond a machine word. -/
def ReadError (e : Error) : Prop :=
  (∃ f, e = .format f) ∨ e.isValue = true ∨ e = .overflow

/-- A reader that fails in no other way, whatever it reads. -/
def Guarded (r : Reader β) : Prop :=
  ∀ bytes e rest, Reader.runOn r bytes = (.error e, rest) → ReadError e

namespace Guarded

variable {r : Reader β}

lemma pure (v : β) : Guarded (Pure.pure v : Reader β) := by
  intro bytes e rest h
  cases h

lemma fault (f : FormatFault) : Guarded (Reader.fault f : Reader β) := by
  intro bytes e rest h
  cases h
  exact Or.inl ⟨f, rfl⟩

theorem bind {f : β → Reader γ} (hr : Guarded r) (hf : ∀ v, Guarded (f v)) : Guarded (r >>= f) := by
  intro bytes e rest h
  rw [runOn_bind] at h
  cases hrun : Reader.runOn r bytes with
  | mk result left =>
    rw [hrun] at h
    cases result with
    | error e' =>
      cases h
      exact hr bytes _ _ hrun
    | ok v => exact hf v left e rest h

/-- What stands behind a check may use what has been checked. -/
theorem check {c : Prop} [Decidable c] {f : FormatFault} {k : PUnit → Reader β}
    (hk : ¬c → Guarded (k ⟨⟩)) :
    Guarded (if c then (Reader.fault f : Reader PUnit) >>= k else k ⟨⟩) := by
  by_cases hc : c
  · rw [if_pos hc]
    intro bytes e rest h
    cases h
    exact Or.inl ⟨f, rfl⟩
  · rw [if_neg hc]
    exact hk hc

lemma take (count : Int) : Guarded (Reader.take count) := by
  intro bytes e rest h
  rcases take_cases count bytes with ⟨-, htake⟩ | ⟨-, _, _, -, htake⟩ | ⟨_, _, htake⟩
  · cases htake.symm.trans h
    exact Or.inr (Or.inr rfl)
  · cases htake.symm.trans h
  · cases htake.symm.trans h
    exact Or.inl ⟨_, rfl⟩

lemma int : Guarded Reader.int := (take 4).bind fun _ => pure _

lemma bool : Guarded Reader.bool := (take 1).bind fun _ => pure _

lemma single : Guarded Reader.single := (take 4).bind fun _ => pure _

lemma double : Guarded Reader.double := (take 8).bind fun _ => pure _

lemma text : Guarded Reader.text := by
  refine (take 2).bind fun size => (take _).bind fun bytes => ?_
  split
  · exact pure _
  · exact fault _

lemma length : Guarded Reader.length :=
  int.bind fun _ => check fun _ => pure _

lemma singles (count : Int) : Guarded (Reader.singles count) := (take _).bind fun _ => pure _

lemma doubles : Guarded Reader.doubles := length.bind fun _ => (take _).bind fun _ => pure _

lemma ints : Guarded Reader.ints := length.bind fun _ => (take _).bind fun _ => pure _

lemma replicate (hr : Guarded r) (n : Nat) : Guarded (Reader.replicate r n) := by
  induction n with
  | zero => exact pure []
  | succ n ih => exact hr.bind fun _ => ih.bind fun _ => pure _

lemma checked (c : Except FormatFault Unit) : Guarded (Model.checked c) := by
  cases c with
  | error f => exact fault f
  | ok _ => exact pure _

lemma liftExcept {result : Except Error β} (h : ∀ e, result = .error e → e.isValue = true) :
    Guarded (Model.read.liftExcept result) := by
  intro bytes e rest hrun
  cases result with
  | error e' =>
    cases hrun
    exact Or.inr (Or.inl (h e rfl))
  | ok v => cases hrun

lemma column : Guarded ColumnStats.read := by
  refine int.bind fun number => text.bind fun name => bool.bind fun categorical =>
    bool.bind fun numerical => doubles.bind fun boundaries => length.bind fun count =>
    (text.replicate count).bind fun labels => doubles.bind fun countEvidence =>
    doubles.bind fun weightedEvidence => double.bind fun mean => double.bind fun stddev =>
    double.bind fun evidenceMean => double.bind fun evidenceStddev =>
    double.bind fun weightedMean => double.bind fun weightedStddev =>
    double.bind fun cutoff => ?_
  split
  · exact pure _
  · exact fault _

lemma embed : Guarded TableRecord.readEmbed :=
  int.bind fun _ => length.bind fun _ => length.bind fun _ => (singles _).bind fun _ => pure _

lemma wide : Guarded TableRecord.readWide :=
  int.bind fun _ => length.bind fun _ => (singles _).bind fun _ => pure _

lemma layer (position : Nat) (previous : Option Nat) : Guarded (LayerRecord.read position previous) := by
  have hrest : ∀ inputs outputs : Nat, Guarded (do
      let weight ← Reader.singles (outputs * inputs : Nat)
      let bias ← Reader.singles outputs
      let activation ← Reader.text
      Pure.pure (⟨inputs, outputs, weight, bias, Text.lower activation⟩ : LayerRecord)) :=
    fun _ _ => (singles _).bind fun _ => (singles _).bind fun _ => text.bind fun _ => pure _
  refine length.bind fun inputs => length.bind fun outputs => ?_
  cases previous with
  | none => exact hrest inputs outputs
  | some n => exact check fun _ => hrest inputs outputs

lemma layers (position : Nat) (previous : Option Nat) (n : Nat) :
    Guarded (LayerRecord.readAll position previous n) := by
  induction n generalizing position previous with
  | zero => exact pure []
  | succ n ih =>
    exact (layer position previous).bind fun first =>
      (ih (position + 1) (some first.outputs)).bind fun _ => pure _

end Guarded

section Rebuilding

/-- Loading refuses weights of other names or shapes, and nothing else. -/
theorem check_error {α : Type} {layout : List (ParamName × List Nat)} {ps : Parameters α} {e : Error}
    (h : Parameters.check layout ps = .error e) : e.kind = .shapeMismatch := by
  unfold Parameters.check at h
  dsimp only at h
  split at h
  · cases h
    rfl
  · obtain ⟨p, -, hp⟩ := forM_error h
    obtain ⟨name, shape⟩ := p
    dsimp only at hp
    split at hp
    · cases hp
      rfl
    · split at hp
      · cases hp
      · cases hp
        rfl

lemma isValue_of_shapeMismatch {e : Error} (h : e.kind = .shapeMismatch) : e.isValue = true := by
  unfold Error.isValue
  rw [h]

lemma load_error_isValue {α : Type} [Zero α] {m : Model α} {ps : Parameters α} {e : Error}
    (h : m.load ps = .error e) : e.isValue = true := by
  rcases bind_eq_error.mp h with hcheck | ⟨_, -, hpure⟩
  · exact isValue_of_shapeMismatch (check_error hcheck)
  · cases hpure

lemma makeAll_ok {categories : List (Int × Int)} {columns : List (Int × Document)}
    (h : ∀ p ∈ columns, ∃ t, TableSize.make categories p.1 p.2 = .ok t) :
    ∃ tables, TableSize.makeAll categories columns = .ok tables := by
  rw [makeAll_eq]
  cases hmade : columns.mapM fun p => TableSize.make categories p.1 p.2 with
  | ok made => exact ⟨_, rfl⟩
  | error e =>
    obtain ⟨p, hp, hfail⟩ := mapM_error hmade
    obtain ⟨t, ht⟩ := h p hp
    rw [hfail] at ht
    cases ht

/-- The columns of a list that sorts like the columns of tables all have a table. -/
lemma mem_of_sorted {tables : List TableSize} {columns : List Int}
    (h : Model.sortedInts (tables.map (·.column)) = Model.sortedInts columns) {c : Int}
    (hc : c ∈ columns) : ∃ t ∈ tables, t.column = c := by
  have hsorted : c ∈ Model.sortedInts columns := List.mem_mergeSort.mpr hc
  rw [← h] at hsorted
  exact List.mem_map.mp (List.mem_mergeSort.mp hsorted)

/-- A column that has a table among those of a file finds its number of categories. -/
lemma lookup_of_table {wides embeds : List TableSize} {c : Int}
    (h : ∃ t ∈ wides ++ embeds, t.column = c) :
    ∃ rows : Nat, (Model.categoriesOf wides ++ Model.categoriesOf embeds).lookup c =
      some ((rows : Int) - 1) := by
  obtain ⟨t, ht, rfl⟩ := h
  have hsome : ((Model.categoriesOf wides ++ Model.categoriesOf embeds).lookup t.column).isSome := by
    refine List.lookup_isSome_iff.mpr ⟨(t.column, (t.rows : Int) - 1), ?_, beq_self_eq_true _⟩
    unfold Model.categoriesOf
    rw [← List.map_append]
    exact List.mem_map_of_mem ht
  obtain ⟨n, hn⟩ := Option.isSome_iff_exists.mp hsome
  obtain ⟨before, after, hsplit, -⟩ := List.lookup_eq_some_iff.mp hn
  have hmem : (t.column, n) ∈ Model.categoriesOf wides ++ Model.categoriesOf embeds := by
    rw [hsplit]
    exact List.mem_append_right before List.mem_cons_self
  unfold Model.categoriesOf at hmem
  rw [← List.map_append] at hmem
  obtain ⟨u, -, hu⟩ := List.mem_map.mp hmem
  refine ⟨u.rows, ?_⟩
  have hrows : (u.rows : Int) - 1 = n := congrArg Prod.snd hu
  rw [hn, hrows]

lemma parse_error {s : String} {e : Error} (h : Activation.parse s = .error e) :
    e = .unknownActivation s := by
  unfold Activation.parse at h
  cases hname : Activation.ofName? (Text.lower (Text.strip s)) with
  | none =>
    rw [hname] at h
    exact (Except.error.inj h).symm
  | some a =>
    rw [hname] at h
    cases h

/-- A layout of tables and layers that were found in a file is refused for unknown activations
alone. -/
theorem layoutMake_error {categories : List (Int × Int)} {dense embed wide : List Int}
    {widthOf : Int → Nat} {hidden : List LayerRecord} {l2 : Float} {e : Error}
    (hembed : ∀ c ∈ embed, ∃ rows : Nat, categories.lookup c = some ((rows : Int) - 1))
    (hwide : ∀ c ∈ wide, ∃ rows : Nat, categories.lookup c = some ((rows : Int) - 1))
    (h : Layout.make
      { categories
        dense := dense.map .int
        embed := embed.map .int
        embedWidths := embed.map fun c => .int (widthOf c)
        wide := wide.map .int
        hidden := hidden.map fun r => .int r.outputs
        activations := hidden.map fun r => .text r.activation
        l2 := .real l2 } = .error e) : e.isValue = true := by
  have hregular : ∃ l, Layout.regularization (.real l2) = .ok l := by
    unfold Layout.regularization
    split
    · exact ⟨_, rfl⟩
    · exact ⟨_, rfl⟩
  have hzip : embed.zip (embed.map fun c => Document.int (widthOf c)) =
      embed.map fun c => (c, .int (widthOf c)) := by
    conv_lhs => rw [← List.map_id embed, List.map_map, List.zip_map']
    rfl
  have hmake : ∀ (c : Int) (width : Nat),
      (∃ rows : Nat, categories.lookup c = some ((rows : Int) - 1)) →
        ∃ t, TableSize.make categories c (.int width) = .ok t := by
    rintro c width ⟨rows, hrows⟩
    exact ⟨⟨c, rows, width⟩, tableMake_eq_ok.mpr ⟨rfl, hrows, rfl⟩⟩
  have hembedTables : ∃ tables, TableSize.makeAll categories
      (embed.zip (embed.map fun c => Document.int (widthOf c))) = .ok tables := by
    refine makeAll_ok fun p hp => ?_
    rw [hzip] at hp
    obtain ⟨c, hc, rfl⟩ := List.mem_map.mp hp
    exact hmake c (widthOf c) (hembed c hc)
  have hwideTables : ∃ tables, TableSize.makeAll categories
      (wide.map fun c => (c, Document.int 1)) = .ok tables := by
    refine makeAll_ok fun p hp => ?_
    obtain ⟨c, hc, rfl⟩ := List.mem_map.mp hp
    exact hmake c 1 (hwide c hc)
  obtain ⟨l, hl⟩ := hregular
  obtain ⟨embedTables, het⟩ := hembedTables
  obtain ⟨wideTables, hwt⟩ := hwideTables
  unfold Layout.make at h
  simp only [List.length_map, bne_self_eq_false, Bool.false_eq_true, if_false, mapM_toInt, hl, het,
    hwt, mapM_toWhole, mapM_layerSize, ok_bind] at h
  rcases bind_eq_error.mp h with hactivations | ⟨_, -, hpure⟩
  · obtain ⟨d, hd, hfail⟩ := mapM_error hactivations
    obtain ⟨r, -, rfl⟩ := List.mem_map.mp hd
    have hunknown : e = .unknownActivation r.activation := parse_error hfail
    rw [hunknown]
    rfl
  · cases hpure

/-- The layout of the tables and layers of a file is refused for unknown activations alone. -/
lemma foundLayout_error {dense embed wide : List Int} {embedTables wideTables : List TableSize}
    {hidden : List LayerRecord} {l2 : Float} {e : Error}
    (hembed : Model.sortedInts (embedTables.map (·.column)) = Model.sortedInts embed)
    (hwide : Model.sortedInts (wideTables.map (·.column)) = Model.sortedInts wide)
    (h : Layout.make
      { categories := Model.categoriesOf wideTables ++ Model.categoriesOf embedTables
        dense := dense.map .int
        embed := embed.map .int
        embedWidths := embed.map fun c =>
          .int (((embedTables.find? (·.column == c)).map fun t => (t.width : Int)).getD 0)
        wide := wide.map .int
        hidden := hidden.map fun r => .int r.outputs
        activations := hidden.map fun r => .text r.activation
        l2 := .real l2 } = .error e) : e.isValue = true := by
  have hwidth : ∀ c : Int, ((embedTables.find? (·.column == c)).map
      fun t => (t.width : Int)).getD 0 =
        (((embedTables.find? (·.column == c)).map (·.width)).getD 0 : Nat) := by
    intro c
    cases embedTables.find? (·.column == c) <;> rfl
  simp only [hwidth] at h
  refine layoutMake_error (fun c hc => lookup_of_table ?_) (fun c hc => lookup_of_table ?_) h
  · obtain ⟨t, ht, hcolumn⟩ := mem_of_sorted hembed hc
    exact ⟨t, List.mem_append_right _ ht, hcolumn⟩
  · obtain ⟨t, ht, hcolumn⟩ := mem_of_sorted hwide hc
    exact ⟨t, List.mem_append_left _ ht, hcolumn⟩

end Rebuilding

section Files

theorem guarded_model : Guarded Model.read := by
  refine Guarded.ints.bind fun dense => Guarded.ints.bind fun embed =>
    Guarded.ints.bind fun wide => Guarded.length.bind fun embedCount =>
    (Guarded.embed.replicate embedCount).bind fun embedRecords => Guarded.check fun hembed =>
    Guarded.length.bind fun wideCount => (Guarded.wide.replicate wideCount).bind fun wideRecords =>
    Guarded.check fun hwide => Guarded.single.bind fun bias => Guarded.length.bind fun count =>
    Guarded.check fun _ => (Guarded.layers 0 none count).bind fun layers =>
    Guarded.single.bind fun l2 => (Guarded.checked _).bind fun _ => (Guarded.checked _).bind fun _ =>
    Guarded.bind ?_ fun layout => Guarded.liftExcept fun e he => load_error_isValue he
  refine Guarded.liftExcept fun e he => ?_
  simp only [bne_iff_ne, ne_eq, not_not] at hembed hwide
  exact foundLayout_error hembed hwide he

theorem guarded_body (version : Int) : Guarded (StoredModel.readBody version) := by
  refine Guarded.single.bind fun _ => Guarded.single.bind fun _ => Guarded.double.bind fun _ =>
    Guarded.text.bind fun _ => Guarded.text.bind fun name => ?_
  split
  · exact Guarded.fault _
  · exact Guarded.length.bind fun count => (Guarded.column.replicate count).bind fun _ =>
      guarded_model.bind fun _ => Guarded.pure _

/-- A container that does not expand is corrupt, or its compressed stream is invalid. -/
theorem expand_error {bytes : Bytes} {e : Error} (h : Gzip.expand bytes = .error e) :
    e = .format .corruptContainer ∨ e = .deflate := by
  have hmember : ∀ data, Gzip.member data = .error e → e = .format .corruptContainer ∨ e = .deflate := by
    intro data hdata
    unfold Gzip.member at hdata
    split at hdata
    · cases hdata
      exact Or.inl rfl
    · split at hdata
      · cases hdata
        exact Or.inr rfl
      · cases hdata
        exact Or.inl rfl
      · dsimp only at hdata
        split at hdata
        · cases hdata
          exact Or.inl rfl
        · cases hdata
  have hmembers : ∀ fuel data, Gzip.members fuel data = .error e →
      e = .format .corruptContainer ∨ e = .deflate := by
    intro fuel
    induction fuel with
    | zero =>
      intro data hdata
      cases hdata
    | succ fuel ih =>
      intro data hdata
      unfold Gzip.members at hdata
      split at hdata
      · cases hdata
      · rcases bind_eq_error.mp hdata with hfirst | ⟨p, -, hlater⟩
        · exact hmember data hfirst
        · rcases bind_eq_error.mp hlater with hrest | ⟨_, -, hpure⟩
          · exact ih p.2 hrest
          · cases hpure
  exact hmembers _ _ h

lemma readPlain_error {strict : Bool} {plain : Bytes} {e : Error}
    (h : (StoredModel.readPlain strict plain).2 = .error e) : ReadError e := by
  unfold StoredModel.readPlain at h
  split at h
  · rename_i hversion
    cases h
    exact Guarded.int _ _ _ hversion
  · rename_i version rest hversion
    dsimp only at h
    split at h
    · exact guarded_body version rest e _ (Prod.ext h rfl)
    · split at h
      · cases h
        exact Or.inl ⟨_, rfl⟩
      · exact guarded_body version rest e _ (Prod.ext h rfl)

lemma asFormat_error {e : Error} (h : ReadError e) :
    (∃ f, StoredModel.asFormat e = .format f) ∨ StoredModel.asFormat e = .overflow := by
  unfold StoredModel.asFormat
  by_cases hvalue : e.isValue = true
  · rw [if_pos hvalue]
    exact Or.inl ⟨_, rfl⟩
  · rw [if_neg hvalue]
    rcases h with ⟨f, rfl⟩ | hv | rfl
    · exact Or.inl ⟨f, rfl⟩
    · exact absurd hv hvalue
    · exact Or.inr rfl

/-- Loading a model fails with malformed data, with an invalid compressed stream, or with a count
beyond a machine word. -/
theorem load_error {strict : Bool} {bytes : Bytes} {e : Error}
    (h : (StoredModel.load strict bytes).2 = .error e) :
    (∃ f, e = .format f) ∨ e = .deflate ∨ e = .overflow := by
  unfold StoredModel.load at h
  dsimp only at h
  split at h
  · rename_i e' hopened
    cases h
    split at hopened
    · rcases expand_error hopened with rfl | rfl
      · exact Or.inl ⟨_, rfl⟩
      · exact Or.inr (Or.inl rfl)
    · cases hopened
  · rename_i plain _
    cases hresult : (StoredModel.readPlain strict plain).2 with
    | error e' =>
      dsimp only at h
      rw [hresult] at h
      rw [← Except.error.inj h]
      rcases asFormat_error (readPlain_error hresult) with hformat | hoverflow
      · exact Or.inl hformat
      · exact Or.inr (Or.inr hoverflow)
    | ok s =>
      dsimp only at h
      rw [hresult] at h
      cases h

end Files

end WideDeep.Proofs
