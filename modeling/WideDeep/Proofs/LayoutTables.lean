import Mathlib.Tactic
import WideDeep.Model.Layout
import WideDeep.Proofs.KeyedLists
import WideDeep.Proofs.Results

/-!
# Tables of a layout

A layout has one table for each of its columns, in their order, and the tables of a column that is
both embedded and wide have as many rows. A layout is made up again from its tables.
-/

namespace WideDeep.Proofs

section Tables

variable {categories : List (Int × Int)} {tables : List TableSize}

lemma puts_table : Puts TableSize.column TableSize.put where
  empty := fun _ => rfl
  same := fun s rest t h => by rw [TableSize.put, if_pos (beq_iff_eq.mpr h)]
  other := fun s rest t h => by rw [TableSize.put, if_neg (by rwa [beq_iff_eq])]

/-- Tables of distinct columns are all kept. -/
theorem foldl_tablePut (h : (tables.map (·.column)).Nodup) :
    tables.foldl TableSize.put [] = tables :=
  puts_table.foldl_of_nodup h

lemma tableMake_eq_ok {column : Int} {width : Document} {t : TableSize} :
    TableSize.make categories column width = .ok t ↔
      t.column = column ∧ categories.lookup column = some ((t.rows : Int) - 1) ∧
        width.toWhole = .ok (t.width : Int) := by
  unfold TableSize.make
  cases hlookup : categories.lookup column with
  | none => simp
  | some n =>
    cases hwhole : width.toWhole with
    | error e => simp [bind, Except.bind]
    | ok w =>
      obtain ⟨c, rows, tableWidth⟩ := t
      by_cases hneg : n + 1 < 0 ∨ w < 0
      · have hrows : ¬(n = (rows : Int) - 1 ∧ w = (tableWidth : Int)) := by omega
        simp [bind, Except.bind, hneg]
        tauto
      · simp only [not_or, not_lt] at hneg
        simp [bind, Except.bind, pure, Except.pure, not_lt.mpr hneg.1, not_lt.mpr hneg.2]
        constructor
        · rintro ⟨rfl, rfl, rfl⟩
          refine ⟨rfl, ?_, ?_⟩ <;> omega
        · rintro ⟨rfl, hn, rfl⟩
          refine ⟨rfl, ?_, ?_⟩ <;> omega

lemma columns_of_forall₂ {columns : List (Int × Document)} {P : Int × Document → TableSize → Prop}
    (h : List.Forall₂ (fun p t => t.column = p.1 ∧ P p t) columns tables) :
    tables.map (·.column) = columns.map Prod.fst := by
  induction h with
  | nil => rfl
  | cons hfirst _ ih => rw [List.map_cons, List.map_cons, hfirst.1, ih]

/-- The tables of columns are made one by one, and of one column the last one is kept. -/
theorem makeAll_eq (categories : List (Int × Int)) (columns : List (Int × Document)) :
    TableSize.makeAll categories columns =
      (columns.mapM fun p => TableSize.make categories p.1 p.2).map (List.foldl TableSize.put []) := by
  unfold TableSize.makeAll
  generalize ([] : List TableSize) = before
  induction columns generalizing before with
  | nil => rfl
  | cons p rest ih =>
    rw [List.foldlM_cons, List.mapM_cons]
    cases hmake : TableSize.make categories p.1 p.2 with
    | error e => rfl
    | ok t =>
      have hrest := ih (TableSize.put before t)
      simp only [bind, Except.bind, pure, Except.pure] at hrest ⊢
      rw [hrest]
      cases (rest.mapM fun p => TableSize.make categories p.1 p.2) <;> rfl

lemma makeAll_made {columns : List (Int × Document)}
    (h : TableSize.makeAll categories columns = .ok tables) :
    ∃ made, List.Forall₂ (fun p t => TableSize.make categories p.1 p.2 = .ok t) columns made ∧
      tables = made.foldl TableSize.put [] := by
  rw [makeAll_eq, map_eq_ok] at h
  obtain ⟨made, hmade, rfl⟩ := h
  exact ⟨made, mapM_eq_ok.mp hmade, rfl⟩

/-- No column has two tables. -/
theorem makeAll_nodup {columns : List (Int × Document)}
    (h : TableSize.makeAll categories columns = .ok tables) : (tables.map (·.column)).Nodup := by
  obtain ⟨made, -, rfl⟩ := makeAll_made h
  exact puts_table.foldl_nodup made List.nodup_nil

/-- What holds of the table made for each column holds of all tables. -/
theorem forall_makeAll {columns : List (Int × Document)} {P : TableSize → Prop}
    (h : TableSize.makeAll categories columns = .ok tables)
    (hmake : ∀ p ∈ columns, ∀ t, TableSize.make categories p.1 p.2 = .ok t → P t) :
    ∀ t ∈ tables, P t := by
  obtain ⟨made, hmade, rfl⟩ := makeAll_made h
  have hall : ∀ t ∈ made, P t :=
    forall_of_forall₂ ((List.forall₂_and_left _ _).mpr ⟨fun p hp => hp, hmade⟩)
      fun p t hpair => hmake p hpair.1 t hpair.2
  exact fun t ht => hall t ((puts_table.mem_foldl ht).resolve_left List.not_mem_nil)

/-- Every table has a row more than its column has categories. -/
theorem lookup_of_makeAll {columns : List (Int × Document)}
    (h : TableSize.makeAll categories columns = .ok tables) :
    ∀ t ∈ tables, categories.lookup t.column = some ((t.rows : Int) - 1) := by
  refine forall_makeAll h fun p _ t hmake => ?_
  obtain ⟨hcolumn, hlookup, -⟩ := tableMake_eq_ok.mp hmake
  rw [hcolumn, hlookup]

/-- Every column has a table. -/
theorem exists_of_makeAll {columns : List (Int × Document)}
    (h : TableSize.makeAll categories columns = .ok tables) :
    ∀ p ∈ columns, ∃ t ∈ tables, t.column = p.1 := by
  obtain ⟨made, hmade, rfl⟩ := makeAll_made h
  intro p hp
  have hcolumns : made.map (·.column) = columns.map Prod.fst :=
    columns_of_forall₂ (hmade.imp fun _ _ hmake => ⟨(tableMake_eq_ok.mp hmake).1, hmake⟩)
  have hkey : p.1 ∈ (made.foldl TableSize.put []).map (·.column) := by
    rw [puts_table.mem_keys_foldl, hcolumns]
    exact Or.inr (List.mem_map_of_mem hp)
  exact List.mem_map.mp hkey

/-- The tables of distinct columns, one by one. -/
theorem makeAll_eq_ok {columns : List (Int × Document)} (h : (columns.map Prod.fst).Nodup) :
    TableSize.makeAll categories columns = .ok tables ↔
      List.Forall₂ (fun p t => t.column = p.1 ∧
        categories.lookup p.1 = some ((t.rows : Int) - 1) ∧
        p.2.toWhole = .ok (t.width : Int)) columns tables := by
  have hmade : ∀ made, List.Forall₂ (fun p t => TableSize.make categories p.1 p.2 = .ok t) columns
      made → made.foldl TableSize.put [] = made := by
    intro made hall
    refine foldl_tablePut ?_
    rwa [columns_of_forall₂ (hall.imp fun _ _ hmake => ⟨(tableMake_eq_ok.mp hmake).1, hmake⟩)]
  rw [makeAll_eq, map_eq_ok]
  simp only [mapM_eq_ok, ← tableMake_eq_ok]
  constructor
  · rintro ⟨made, hall, rfl⟩
    rwa [hmade made hall]
  · intro hall
    exact ⟨tables, hall, hmade tables hall⟩

end Tables

section Documents

lemma mapM_toInt (ids : List Int) : (ids.map Document.int).mapM Document.toInt = .ok ids := by
  have h : (ids.map Document.int).mapM Document.toInt = .ok (ids.map id) := mapM_map_ok fun _ => rfl
  rwa [List.map_id] at h

lemma mapM_toWhole {β : Type} (xs : List β) (width : β → Nat) :
    (xs.map fun x => Document.int (width x)).mapM Document.toWhole =
      .ok (xs.map fun x => (width x : Int)) :=
  mapM_map_ok fun _ => rfl

lemma mapM_layerSize {β : Type} (xs : List β) (size : β → Nat) :
    (xs.map fun x => Document.int (size x)).mapM Layout.layerSize = .ok (xs.map size) :=
  mapM_map_ok fun _ => by simp [Layout.layerSize, Document.integer?]

end Documents

/-- What holds of the tables of every layout whose columns are distinct. -/
structure Coherent (l : Layout) : Prop where
  embed_nodup : l.embed.Nodup
  wide_nodup : l.wide.Nodup
  embed_columns : l.embedTables.map (·.column) = l.embed
  wide_columns : l.wideTables.map (·.column) = l.wide
  wide_width : ∀ t ∈ l.wideTables, t.width = 1
  same_rows : ∀ e ∈ l.embedTables, ∀ w ∈ l.wideTables, e.column = w.column → e.rows = w.rows
  inputs_eq : l.inputs = l.dense.length + (l.embedTables.map (·.width)).foldl (· + ·) 0

/-- No column has two tables of one kind. -/
structure DistinctTables (l : Layout) : Prop where
  embed : (l.embedTables.map (·.column)).Nodup
  wide : (l.wideTables.map (·.column)).Nodup

lemma distinct_of_coherent {l : Layout} (h : Coherent l) : DistinctTables l := by
  refine ⟨?_, ?_⟩
  · rw [h.embed_columns]
    exact h.embed_nodup
  · rw [h.wide_columns]
    exact h.wide_nodup

/-- A layout holds what the parts of a specification are read as. -/
structure MadeFrom (s : LayoutSpec) (l : Layout) : Prop where
  embed_widths : s.embedWidths.length = s.embed.length
  hidden_activations : s.activations.length = s.hidden.length
  dense : s.dense.mapM Document.toInt = .ok l.dense
  embed : s.embed.mapM Document.toInt = .ok l.embed
  wide : s.wide.mapM Document.toInt = .ok l.wide
  l2 : Layout.regularization s.l2 = .ok l.l2
  embedTables : TableSize.makeAll s.categories (l.embed.zip s.embedWidths) = .ok l.embedTables
  wideTables :
    TableSize.makeAll s.categories (l.wide.map fun c => (c, .int 1)) = .ok l.wideTables
  inputs : ∃ widths, s.embedWidths.mapM Document.toWhole = .ok widths ∧
    l.inputs = l.dense.length + (widths.map Int.toNat).foldl (· + ·) 0
  hidden : ∃ sizes activations, s.hidden.mapM Layout.layerSize = .ok sizes ∧
    s.activations.mapM Activation.ofDocument = .ok activations ∧ l.hidden = sizes.zip activations

/-- When a layout is made. -/
theorem layoutMake_eq_ok {s : LayoutSpec} {l : Layout} : Layout.make s = .ok l ↔ MadeFrom s l := by
  unfold Layout.make
  by_cases hw : s.embedWidths.length = s.embed.length
  · by_cases ha : s.activations.length = s.hidden.length
    · simp only [hw, ha, bne_self_eq_false, Bool.false_eq_true, if_false]
      simp only [bind_eq_ok]
      constructor
      · rintro ⟨dense, hdense, embed, hembed, wide, hwide, l2, hl2, et, het, wt, hwt, ws, hws,
          sizes, hsizes, acts, hacts, heq⟩
        cases heq
        exact ⟨hw, ha, hdense, hembed, hwide, hl2, het, hwt, ⟨ws, hws, rfl⟩,
          sizes, acts, hsizes, hacts, rfl⟩
      · rintro ⟨-, -, hdense, hembed, hwide, hl2, het, hwt, ⟨ws, hws, hin⟩, sizes, acts, hsizes, hacts,
          hhidden⟩
        refine ⟨_, hdense, _, hembed, _, hwide, _, hl2, _, het, _, hwt, ws, hws, sizes, hsizes,
          acts, hacts, ?_⟩
        rw [← hin, ← hhidden]
        rfl
    · have hne : (s.activations.length != s.hidden.length) = true := bne_iff_ne.mpr ha
      refine iff_of_false ?_ fun h => ha h.hidden_activations
      simp [hw, hne, bind, Except.bind, throw, throwThe, MonadExceptOf.throw]
  · have hne : (s.embedWidths.length != s.embed.length) = true := bne_iff_ne.mpr hw
    refine iff_of_false ?_ fun h => hw h.embed_widths
    simp [hne, bind, Except.bind, throw, throwThe, MonadExceptOf.throw]

lemma madeFrom_of_make {s : LayoutSpec} {l : Layout} (h : Layout.make s = .ok l) : MadeFrom s l :=
  layoutMake_eq_ok.mp h

/-- Every embedded column is given a width. -/
lemma MadeFrom.embed_length {s : LayoutSpec} {l : Layout} (h : MadeFrom s l) :
    l.embed.length = s.embedWidths.length := by
  rw [h.embed_widths]
  exact (mapM_eq_ok.mp h.embed).length_eq.symm

/-- A layout that is made from columns of numbers has these columns. -/
lemma columns_of_make {s : LayoutSpec} {l : Layout} {embed wide : List Int}
    (hembed : s.embed = embed.map .int) (hwide : s.wide = wide.map .int)
    (h : Layout.make s = .ok l) : l.embed = embed ∧ l.wide = wide := by
  have hreadEmbed := (madeFrom_of_make h).embed
  have hreadWide := (madeFrom_of_make h).wide
  rw [hembed, mapM_toInt] at hreadEmbed
  rw [hwide, mapM_toInt] at hreadWide
  exact ⟨(Except.ok.inj hreadEmbed).symm, (Except.ok.inj hreadWide).symm⟩

/-- A layout that has been made has one table for each column, whatever its lists of columns are. -/
theorem distinct_of_make {s : LayoutSpec} {l : Layout} (h : Layout.make s = .ok l) :
    DistinctTables l :=
  ⟨makeAll_nodup (madeFrom_of_make h).embedTables, makeAll_nodup (madeFrom_of_make h).wideTables⟩

/-- Every embedded column of a layout that has been made has a table. -/
lemma embedTable_of_make {s : LayoutSpec} {l : Layout} (h : Layout.make s = .ok l) :
    ∀ n ∈ l.embed, ∃ t ∈ l.embedTables, t.column = n := by
  have hzip : (l.embed.zip s.embedWidths).map Prod.fst = l.embed :=
    List.map_fst_zip (madeFrom_of_make h).embed_length.le
  intro n hn
  rw [← hzip] at hn
  obtain ⟨p, hp, rfl⟩ := List.mem_map.mp hn
  exact exists_of_makeAll (madeFrom_of_make h).embedTables p hp

/-- Every wide column of a layout that has been made has a table. -/
lemma wideTable_of_make {s : LayoutSpec} {l : Layout} (h : Layout.make s = .ok l) :
    ∀ n ∈ l.wide, ∃ t ∈ l.wideTables, t.column = n :=
  fun n hn =>
    exists_of_makeAll (madeFrom_of_make h).wideTables (n, .int 1) (List.mem_map_of_mem hn)

/-- The tables of the wide part are those of its columns. -/
lemma wideColumn_of_make {s : LayoutSpec} {l : Layout} (h : Layout.make s = .ok l) :
    ∀ t ∈ l.wideTables, t.column ∈ l.wide := by
  have hwide := (madeFrom_of_make h).wideTables
  refine forall_makeAll hwide (List.forall_mem_map.mpr fun n hn t hmake => ?_)
  rw [(tableMake_eq_ok.mp hmake).1]
  exact hn

/-- The tables of wide columns have one weight for each row. -/
lemma wideWidth_of_make {s : LayoutSpec} {l : Layout} (h : Layout.make s = .ok l) :
    ∀ t ∈ l.wideTables, t.width = 1 := by
  have hwide := (madeFrom_of_make h).wideTables
  refine forall_makeAll hwide (List.forall_mem_map.mpr fun n _ t hmake => ?_)
  have hwidth : (1 : Int) = t.width := Except.ok.inj (tableMake_eq_ok.mp hmake).2.2
  omega

/-- When a layout is planned: it has been made, and there is room for its parameters. -/
theorem plan_eq_ok {s : LayoutSpec} {l : Layout} :
    Layout.plan s = .ok l ↔
      Layout.make s = .ok l ∧ ∀ p ∈ l.shapes,
        (∀ n ∈ p.2, fitsIndex n = true) ∧ volume p.2 < Layout.capacity := by
  have hroom : ∀ made : Layout, Layout.withRoom made = .ok l ↔
      made = l ∧ ∀ p ∈ l.shapes, (∀ n ∈ p.2, fitsIndex n = true) ∧ volume p.2 < Layout.capacity := by
    intro made
    unfold Layout.withRoom
    dsimp only
    split_ifs with hwords hvolumes
    · simp only [false_iff]
      rintro ⟨rfl, hfits⟩
      simp only [List.any_map, List.any_eq_true, Function.comp_apply, Bool.not_eq_true'] at hwords
      obtain ⟨p, hp, n, hn, hbad⟩ := hwords
      rw [(hfits p hp).1 n hn] at hbad
      cases hbad
    · simp only [false_iff]
      rintro ⟨rfl, hfits⟩
      simp only [List.any_map, List.any_eq_true, Function.comp_apply, decide_eq_true_eq] at hvolumes
      obtain ⟨p, hp, hbad⟩ := hvolumes
      exact absurd (hfits p hp).2 (not_lt.mpr hbad)
    · simp only [List.any_map, List.any_eq_true, Function.comp_apply, Bool.not_eq_true',
        decide_eq_true_eq, not_exists, not_and, not_le, Bool.not_eq_false] at hwords hvolumes
      constructor
      · intro h
        cases h
        exact ⟨rfl, fun p hp => ⟨hwords p hp, hvolumes p hp⟩⟩
      · rintro ⟨rfl, -⟩
        rfl
  unfold Layout.plan
  rw [bind_eq_ok]
  constructor
  · rintro ⟨made, hmade, hplan⟩
    obtain ⟨rfl, hfits⟩ := (hroom made).mp hplan
    exact ⟨hmade, hfits⟩
  · rintro ⟨hmade, hfits⟩
    exact ⟨l, hmade, (hroom l).mpr ⟨rfl, hfits⟩⟩

/-- The tables of a layout that has been made. -/
theorem coherent_of_make {s : LayoutSpec} {l : Layout} (h : Layout.make s = .ok l)
    (hembed : l.embed.Nodup) (hwide : l.wide.Nodup) : Coherent l := by
  have hmade := madeFrom_of_make h
  obtain ⟨widths, hwidths, hinputs⟩ := hmade.inputs
  have het := hmade.embedTables
  have hwt := hmade.wideTables
  have hlength := hmade.embed_length
  have hzip : (l.embed.zip s.embedWidths).map Prod.fst = l.embed := List.map_fst_zip hlength.le
  have hsnd : (l.embed.zip s.embedWidths).map Prod.snd = s.embedWidths :=
    List.map_snd_zip hlength.ge
  have hones : (l.wide.map fun c => (c, Document.int 1)).map Prod.fst = l.wide := by
    rw [List.map_map]
    exact List.map_id _
  have hembedRows := lookup_of_makeAll het
  have hwideRows := lookup_of_makeAll hwt
  rw [makeAll_eq_ok (by rwa [hzip])] at het
  rw [makeAll_eq_ok (by rwa [hones])] at hwt
  refine ⟨hembed, hwide, ?_, ?_, ?_, ?_, ?_⟩
  · rw [columns_of_forall₂ het, hzip]
  · rw [columns_of_forall₂ hwt, hones]
  · rw [List.forall₂_map_left_iff] at hwt
    refine forall_of_forall₂ hwt fun c t hc => ?_
    have hone : (1 : Int) = t.width := Except.ok.inj hc.2.2
    omega
  · intro e he w hw hcolumn
    have hrows : some ((e.rows : Int) - 1) = some ((w.rows : Int) - 1) := by
      rw [← hembedRows e he, ← hwideRows w hw, hcolumn]
    have hequal := Option.some.inj hrows
    omega
  · have hread : s.embedWidths.mapM Document.toWhole =
        .ok (l.embedTables.map fun t => (t.width : Int)) := by
      rw [← hsnd, mapM_eq_ok, List.forall₂_map_left_iff, List.forall₂_map_right_iff]
      exact het.imp fun _ _ hp => hp.2.2
    rw [hwidths] at hread
    rw [hinputs, Except.ok.inj hread, List.map_map]
    rfl

end WideDeep.Proofs
