import Mathlib.Tactic
import WideDeep.Config.Model
import WideDeep.Labelling
import WideDeep.Proofs.ModelShape
import WideDeep.Worker

/-!
# Layouts of configurations

The layout that is planned for a configuration has a filled table for each column it reads, also if
it embeds a column twice. Records with as many values as it reads pass the check of a worker.
-/

namespace WideDeep.Proofs

section Planned

variable {c : ModelConfig} {l : Layout}

/-- The layout that is planned for a configuration has its columns, and a table for each of them. -/
lemma tables_of_layout (h : c.layout = .ok l) :
    l.embed = c.embed ∧ l.wide = c.wide ∧ ∀ n ∈ l.embed, ∃ t ∈ l.embedTables, t.column = n := by
  obtain ⟨hmake, -⟩ := plan_eq_ok.mp h
  obtain ⟨hembed, hwide⟩ := columns_of_make rfl rfl hmake
  exact ⟨hembed, hwide, embedTable_of_make hmake⟩

/-- The layout that is planned for a configuration reads the columns that it names. -/
lemma ids_of_layout (h : c.layout = .ok l) :
    l.dense = c.dense ∧ l.embed = c.embed ∧ l.wide = c.wide := by
  obtain ⟨hembed, hwide, -⟩ := tables_of_layout h
  have hread := (madeFrom_of_make (plan_eq_ok.mp h).1).dense
  change (c.dense.map Document.int).mapM Document.toInt = .ok l.dense at hread
  rw [mapM_toInt] at hread
  exact ⟨(Except.ok.inj hread).symm, hembed, hwide⟩

/-- A layout that records can be computed with: all columns have tables, the tables have rows, and the
layers begin with the inputs that the columns give. -/
structure Ready (l : Layout) : Prop where
  distinct : DistinctTables l
  embed : ∀ n ∈ l.embed, ∃ t ∈ l.embedTables, t.column = n
  wide : ∀ n ∈ l.wide, ∃ t ∈ l.wideTables, t.column = n
  wide_width : ∀ t ∈ l.wideTables, t.width = 1
  filled : Filled l
  inputs : l.inputs = l.dense.length + Model.embedWidth l

/-- Every table of a configured column has a row for missing values. -/
lemma filled_of_layout (h : c.layout = .ok l) : Filled l := by
  have hmade := madeFrom_of_make (plan_eq_ok.mp h).1
  intro t ht
  have hlookup : c.categories.lookup t.column = some ((t.rows : Int) - 1) := by
    rcases List.mem_append.mp ht with ht | ht
    · exact lookup_of_makeAll hmade.embedTables t ht
    · exact lookup_of_makeAll hmade.wideTables t ht
  obtain ⟨before, after, hsplit, -⟩ := List.lookup_eq_some_iff.mp hlookup
  have hentry : (t.column, (t.rows : Int) - 1) ∈ c.categories := by
    rw [hsplit]
    exact List.mem_append_right before List.mem_cons_self
  obtain ⟨record, -, heq⟩ := List.mem_map.mp hentry
  have hrows : (record.labels.length : Int) = (t.rows : Int) - 1 := congrArg Prod.snd heq
  omega

/-- All embedded columns of a configuration have tables of one width. -/
lemma width_of_layout (h : c.layout = .ok l) :
    ∀ t ∈ l.embedTables, c.embedWidth.toWhole = .ok (t.width : Int) := by
  have hembed := (madeFrom_of_make (plan_eq_ok.mp h).1).embedTables
  refine forall_makeAll hembed fun p hp t hmake => ?_
  obtain ⟨-, -, hwidth⟩ := tableMake_eq_ok.mp hmake
  obtain ⟨n, -, heq⟩ := List.mem_map.mp (List.of_mem_zip hp).2
  rwa [← heq] at hwidth

/-- The layers of a configuration begin with the inputs that its columns give. -/
lemma inputs_of_layout (h : c.layout = .ok l) : l.inputs = l.dense.length + Model.embedWidth l := by
  obtain ⟨hembed, -, htables⟩ := tables_of_layout h
  obtain ⟨widths, hwidths, hinputs⟩ := (madeFrom_of_make (plan_eq_ok.mp h).1).inputs
  have hlist : List.Forall₂ (fun _ w => c.embedWidth.toWhole = .ok w) l.embed widths := by
    rw [hembed]
    exact List.forall₂_map_left_iff.mp (mapM_eq_ok.mp hwidths)
  have hsame : ∀ n ∈ l.embed, ∀ w, c.embedWidth.toWhole = .ok w →
      ((l.embedTables.find? (·.column == n)).map (·.width)).getD 0 = w.toNat := by
    intro n hn w hw
    obtain ⟨t, ht, hcolumn⟩ := htables n hn
    have hsome : (l.embedTables.find? (·.column == n)).isSome = true :=
      List.find?_isSome.mpr ⟨t, ht, beq_iff_eq.mpr hcolumn⟩
    obtain ⟨u, hu⟩ := Option.isSome_iff_exists.mp hsome
    have hwidth := width_of_layout h u (List.mem_of_find?_eq_some hu)
    rw [hw] at hwidth
    rw [hu, Option.map_some, Option.getD_some, Except.ok.inj hwidth, Int.toNat_natCast]
  have hmap : (l.embed.map fun n =>
      ((l.embedTables.find? (·.column == n)).map (·.width)).getD 0) = widths.map Int.toNat := by
    refine List.forall₂_eq_eq_eq ▸ ?_
    rw [List.forall₂_map_left_iff, List.forall₂_map_right_iff]
    exact ((List.forall₂_and_left _ _).mpr ⟨fun n hn => hn, hlist⟩).imp fun n w hp => hsame n hp.1 w hp.2
  rw [hinputs, Model.embedWidth, hmap]

theorem ready_of_layout (h : c.layout = .ok l) : Ready l := by
  obtain ⟨-, -, hembed⟩ := tables_of_layout h
  obtain ⟨hmake, -⟩ := plan_eq_ok.mp h
  exact ⟨distinct_of_make hmake, hembed, wideTable_of_make hmake, wideWidth_of_make hmake,
    filled_of_layout h, inputs_of_layout h⟩

end Planned

section Records

variable {α : Type} {l : Layout} {d : Dataset α}

/-- Records that have what a layout reads: as many dense values and as many indices as it has
columns. The number of records is a machine word. -/
structure Normalized (l : Layout) (d : Dataset α) : Prop where
  denseWidth : d.denseWidth = l.dense.length
  embedWidth : d.embedWidth = l.embed.length
  wideWidth : d.wideWidth = l.wide.length
  dense : ∀ s ∈ d.samples, s.inputs.dense.length = l.dense.length
  embed : ∀ s ∈ d.samples, s.inputs.embed.length = l.embed.length
  wide : ∀ s ∈ d.samples, s.inputs.wide.length = l.wide.length
  size : fitsIndex d.size = true

/-- Records that have what a layout reads, however many they are. -/
structure Fitting (l : Layout) (d : Dataset α) : Prop where
  denseWidth : d.denseWidth = l.dense.length
  embedWidth : d.embedWidth = l.embed.length
  wideWidth : d.wideWidth = l.wide.length
  dense : ∀ s ∈ d.samples, s.inputs.dense.length = l.dense.length
  embed : ∀ s ∈ d.samples, s.inputs.embed.length = l.embed.length
  wide : ∀ s ∈ d.samples, s.inputs.wide.length = l.wide.length

lemma Normalized.fitting (h : Normalized l d) : Fitting l d :=
  ⟨h.denseWidth, h.embedWidth, h.wideWidth, h.dense, h.embed, h.wide⟩

/-- Some of the records that fit a layout fit it as well. -/
lemma Fitting.of_subset (h : Fitting l d) {samples : List (Sample α)}
    (hsub : ∀ s ∈ samples, s ∈ d.samples) : Fitting l (d.withSamples samples) where
  denseWidth := h.denseWidth
  embedWidth := h.embedWidth
  wideWidth := h.wideWidth
  dense := fun s hs => h.dense s (hsub s hs)
  embed := fun s hs => h.embed s (hsub s hs)
  wide := fun s hs => h.wide s (hsub s hs)

lemma size_lt (h : Normalized l d) : d.size < 2 ^ 64 := by
  have hsize := h.size
  unfold fitsIndex at hsize
  simp only [Bool.and_eq_true, decide_eq_true_eq] at hsize
  omega

/-- Some of the records of a normalized dataset make up a normalized dataset. -/
lemma Normalized.of_subset (h : Normalized l d) {samples : List (Sample α)}
    (hsub : ∀ s ∈ samples, s ∈ d.samples) (hlength : samples.length ≤ d.size) :
    Normalized l (d.withSamples samples) where
  denseWidth := h.denseWidth
  embedWidth := h.embedWidth
  wideWidth := h.wideWidth
  dense := fun s hs => h.dense s (hsub s hs)
  embed := fun s hs => h.embed s (hsub s hs)
  wide := fun s hs => h.wide s (hsub s hs)
  size := by
    have hsize := h.size
    unfold fitsIndex at hsize ⊢
    simp only [Bool.and_eq_true, decide_eq_true_eq] at hsize ⊢
    change -0x8000000000000000 ≤ (samples.length : Int) ∧ (samples.length : Int) < 0x8000000000000000
    omega

lemma checkLookups_filled {tables : List TableSize} {columns : List Int} {g : Grid Int}
    (hcolumns : ∀ n ∈ columns, ∃ t ∈ tables, t.column = n) (hfilled : ∀ t ∈ tables, 0 < t.rows)
    (hwidth : columns.length ≤ g.width) : Model.checkLookups tables columns g = .ok () := by
  refine (checkLookups_eq_ok hwidth).mpr fun n hn => ?_
  obtain ⟨t, ht, hcolumn⟩ := hcolumns n hn
  have hsome : (tables.find? (·.column == n)).isSome = true :=
    List.find?_isSome.mpr ⟨t, ht, beq_iff_eq.mpr hcolumn⟩
  obtain ⟨u, hu⟩ := Option.isSome_iff_exists.mp hsome
  have hrows := hfilled u (List.mem_of_find?_eq_some hu)
  exact ⟨u, hu, fun hzero => absurd hzero hrows.ne'⟩

/-- What is checked for a batch that has an index for each column, if all columns have tables with
rows: the widths of the tables together with the dense values have to give as many inputs as the
layers begin with. -/
theorem resultCount_of_filled {b : Batch α} {n : Nat}
    (hembedTables : ∀ c ∈ l.embed, ∃ t ∈ l.embedTables, t.column = c)
    (hwideTables : ∀ c ∈ l.wide, ∃ t ∈ l.wideTables, t.column = c) (hfilled : Filled l)
    (hdense : b.dense.rows.length = n) (hembed : b.embed.rows.length = n)
    (hwide : b.wide.rows.length = n) (hembedWidth : l.embed.length ≤ b.embed.width)
    (hwideWidth : l.wide.length ≤ b.wide.width) :
    Model.resultCount l b =
      if b.dense.width + Model.embedWidth l = l.inputs then .ok n else .error .tensorShape := by
  obtain ⟨hfilledEmbed, hfilledWide⟩ := List.forall_mem_append.mp hfilled
  have hembedRead : Model.checkLookups l.embedTables l.embed b.embed = .ok () :=
    checkLookups_filled hembedTables hfilledEmbed hembedWidth
  have hwideRead : ∀ first rest, l.wide = first :: rest →
      Model.checkLookups l.wideTables [first] b.wide = .ok () ∧
        Model.checkLookups l.wideTables (first :: rest) b.wide = .ok () := by
    intro first rest heq
    have hcolumns := heq ▸ hwideTables
    have hwidth : rest.length + 1 ≤ b.wide.width := by
      rw [heq] at hwideWidth
      exact hwideWidth
    refine ⟨checkLookups_filled (fun c hc => hcolumns c ?_) hfilledWide ?_,
      checkLookups_filled hcolumns hfilledWide hwidth⟩
    · rw [List.mem_singleton.mp hc]
      exact List.mem_cons_self
    · rw [List.length_singleton]
      omega
  have hinputs : (if b.dense.width + Model.embedWidth l = l.inputs then .ok n
      else .error .tensorShape : Except Error Nat) = (do
        if b.dense.width + Model.embedWidth l != l.inputs then throw .tensorShape
        pure n) := by
    by_cases heq : b.dense.width + Model.embedWidth l = l.inputs
    · rw [if_pos heq, heq, bne_self_eq_false]
      rfl
    · rw [if_neg heq, if_pos (bne_iff_ne.mpr heq)]
      rfl
  have hcount : Model.wideCount l b = .ok n := by
    unfold Model.wideCount
    cases hcolumns : l.wide with
    | nil => exact congrArg Except.ok hdense
    | cons first rest =>
      obtain ⟨hfirst, hall⟩ := hwideRead first rest hcolumns
      dsimp only
      rw [hfirst, hall, hdense, hwide, broadcast_self]
      rfl
  unfold Model.resultCount
  rw [hcount]
  simp only [hdense, hembed, hembedRead, hinputs, bne_self_eq_false, Bool.and_false]
  rfl

/-- Records that fit a layout give one result each. -/
theorem resultCount_of_fitting (hl : Ready l) (h : Fitting l d) :
    Model.resultCount l d.batch = .ok d.size := by
  have hcount := resultCount_of_filled (b := d.batch) (n := d.size) hl.embed hl.wide hl.filled
    (List.length_map _) (List.length_map _) (List.length_map _) h.embedWidth.ge h.wideWidth.ge
  rw [hcount, if_pos]
  rw [hl.inputs, ← h.denseWidth]
  rfl

/-- A worker accepts records that fit its layout. -/
theorem checkData_of_fitting (hl : Ready l) (h : Fitting l d) : Worker.checkData l d = .ok () := by
  unfold Worker.checkData
  rw [resultCount_of_fitting hl h]
  split <;> rfl

end Records

section Labelled

variable {c : ModelConfig} {l : Layout} {a : Assembler} {labels : Labelling} {f : Frame}
  {d : Dataset Float32}

lemma columns_of_assembler (h : c.assembler = .ok a) :
    a.dense = c.dense ∧ a.embed = c.embed ∧ a.wide = c.wide := by
  obtain ⟨_, -, h⟩ := bind_eq_ok.mp h
  obtain ⟨names, -, h⟩ := bind_eq_ok.mp h
  obtain ⟨stats, -, h⟩ := bind_eq_ok.mp h
  cases h
  exact ⟨rfl, rfl, rfl⟩

lemma lengths_of_frameInputs {rows : List (Inputs Float32)} (h : a.frameInputs f = .ok rows) :
    ∀ r ∈ rows, r.dense.length = a.dense.length ∧ r.embed.length = a.embed.length ∧
      r.wide.length = a.wide.length := by
  obtain ⟨dense, hdense, h⟩ := bind_eq_ok.mp h
  obtain ⟨embed, hembed, h⟩ := bind_eq_ok.mp h
  obtain ⟨wide, hwide, h⟩ := bind_eq_ok.mp h
  cases h
  intro r hr
  obtain ⟨i, -, rfl⟩ := List.mem_map.mp hr
  dsimp only
  rw [List.length_map, List.length_map, List.length_map]
  exact ⟨(mapM_eq_ok.mp hdense).length_eq.symm, (mapM_eq_ok.mp hembed).length_eq.symm,
    (mapM_eq_ok.mp hwide).length_eq.symm⟩

/-- What the labelling of a frame keeps fits the layout of the same configuration. -/
theorem fitting_of_run (hlayout : c.layout = .ok l) (hassembler : c.assembler = .ok a)
    (hrun : (labels.run a f).2 = .ok d) : Fitting l d := by
  obtain ⟨hdenseIds, hembedIds, hwideIds⟩ := ids_of_layout hlayout
  obtain ⟨hdense, hembed, hwide⟩ := columns_of_assembler hassembler
  unfold Labelling.run at hrun
  split at hrun
  · cases hrun
  · cases hrun
  · obtain ⟨rows, hrows, hrun⟩ := bind_eq_ok.mp hrun
    obtain ⟨weights, -, hrun⟩ := bind_eq_ok.mp hrun
    have hd := Except.ok.inj hrun
    have hlengths := lengths_of_frameInputs hrows
    rw [hdense, hembed, hwide, ← hdenseIds, ← hembedIds, ← hwideIds] at hlengths
    have hrow : ∀ s ∈ d.samples, s.inputs ∈ rows := by
      intro s hs
      rw [← hd] at hs
      obtain ⟨p, hp, rfl⟩ := List.mem_map.mp hs
      exact (List.of_mem_zip hp).1
    refine ⟨?_, ?_, ?_, fun s hs => (hlengths _ (hrow s hs)).1,
      fun s hs => (hlengths _ (hrow s hs)).2.1, fun s hs => (hlengths _ (hrow s hs)).2.2⟩
    · rw [← hd, hdenseIds, ← hdense]
    · rw [← hd, hembedIds, ← hembed]
    · rw [← hd, hwideIds, ← hwide]

/-- What the labelling of a frame keeps is normalized for the layout of the same configuration. -/
theorem normalized_of_run (hlayout : c.layout = .ok l) (hassembler : c.assembler = .ok a)
    (hrun : (labels.run a f).2 = .ok d) (hsize : fitsIndex d.size = true) : Normalized l d :=
  have h := fitting_of_run hlayout hassembler hrun
  ⟨h.denseWidth, h.embedWidth, h.wideWidth, h.dense, h.embed, h.wide, hsize⟩

end Labelled

end WideDeep.Proofs
