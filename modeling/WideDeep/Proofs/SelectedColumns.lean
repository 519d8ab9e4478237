import Mathlib.Tactic
import WideDeep.Proofs.AssembledFrames

/-!
# Selected columns

Dense and wide columns are the selected columns of their kinds, in the order of their numbers. Columns
that are named to be embedded have to be categorical but need not be selected, and apart from them no
other columns of a frame are read than the selected ones.
-/

namespace WideDeep.Proofs

/-- A column number among the selected ids, which are all numbers if no ids are given. -/
def Selected (ids : Option (List Document)) (n : Int) : Prop :=
  ∀ given, ids = some given → ∃ d ∈ given, ModelConfig.columnNumber d = .ok (some n)

section Sorting

variable {ids sorted : List Document}

lemma mapM_text_eq_some {texts : List String} (h : ids.mapM Document.text? = some texts) :
    ids = texts.map .text := by
  refine List.forall₂_eq_eq_eq ▸ List.forall₂_map_right_iff.mpr ?_
  refine (mapM_eq_some.mp h).imp fun d s hs => ?_
  cases d with
  | text t => exact congrArg Document.text (Option.some.inj hs)
  | _ => cases hs

/-- Sorting ids changes their order only. -/
theorem sortedIds_perm (h : ModelConfig.sortedIds ids = .ok sorted) : sorted.Perm ids := by
  unfold ModelConfig.sortedIds at h
  split_ifs at h with hshort htexts
  · cases h
    rfl
  · obtain ⟨texts, hsome⟩ := Option.isSome_iff_exists.mp htexts
    have hids := mapM_text_eq_some hsome
    have hfound : ids.filterMap Document.text? = texts := by
      rw [hids, List.filterMap_map]
      exact List.filterMap_some
    cases h
    rw [hfound, hids]
    exact (List.mergeSort_perm _ _).map _
  · obtain ⟨numbers, hnumbers, h⟩ := bind_eq_ok.mp h
    cases h
    have hlength := (mapM_eq_ok.mp hnumbers).length_eq
    calc ((ids.zip numbers).mergeSort fun a b => !b.2.less a.2).map Prod.fst
        |>.Perm ((ids.zip numbers).map Prod.fst) := (List.mergeSort_perm _ _).map _
      _ = ids := List.map_fst_zip hlength.le

end Sorting

section Choosing

variable {columns : List ColumnRecord} {options : ModelOptions} {c : ModelConfig} {r : ColumnRecord}
  {selected : Option (List Document)} {n : Int}

/-- A column that counts: of those with its number the last one. -/
def Counted (columns : List ColumnRecord) (r : ColumnRecord) : Prop :=
  LastOfKey (fun r : ColumnRecord => r.number) columns r

lemma mem_byNumber : r ∈ ColumnStatsOf.byNumber columns ↔ Counted columns r := by
  have hnone : (([] : List ColumnRecord).map fun r => r.number).Nodup := List.nodup_nil
  unfold ColumnStatsOf.byNumber Counted
  rw [puts_column.mem_foldl_iff hnone]
  simp

lemma mem_candidates :
    r ∈ ModelConfig.candidates columns selected ↔ r ∈ columns ∧ Selected selected r.number := by
  have hfound : ∀ d : Document, (ModelConfig.columnNumber d).toOption = some (some r.number) ↔
      ModelConfig.columnNumber d = .ok (some r.number) := by
    intro d
    cases ModelConfig.columnNumber d <;> simp [Except.toOption]
  unfold ModelConfig.candidates Selected
  rw [List.mem_filter, List.mem_mergeSort]
  refine and_congr_right fun _ => ?_
  cases selected with
  | none => simp
  | some ids => simp [hfound]

/-- The chosen columns of a kind stand in the order of their numbers, each once. -/
lemma candidates_increasing (p : ColumnRecord → Bool) : (((ModelConfig.candidates
    (ColumnStatsOf.byNumber columns) selected).filter p).map (·.number)).Pairwise (· < ·) := by
  have hsorted : ((ColumnStatsOf.byNumber columns).mergeSort fun a b =>
      decide (a.number ≤ b.number)).Pairwise fun a b => a.number ≤ b.number := by
    refine (List.pairwise_mergeSort ?_ ?_ _).imp of_decide_eq_true
    · intro a b d hab hbd
      exact decide_eq_true (le_trans (of_decide_eq_true hab) (of_decide_eq_true hbd))
    · intro a b
      rw [Bool.or_eq_true, decide_eq_true_eq, decide_eq_true_eq]
      exact le_total _ _
  have hdistinct : ((ColumnStatsOf.byNumber columns).mergeSort fun a b =>
      decide (a.number ≤ b.number)).Pairwise fun a b => a.number ≠ b.number := by
    rw [← List.pairwise_map]
    exact ((List.mergeSort_perm _ _).map _).nodup_iff.mpr (byNumber_nodup columns)
  rw [List.pairwise_map]
  exact (((hsorted.and hdistinct).imp fun h => lt_of_le_of_ne h.1 h.2).filter _).filter _

/-- The ids that a configuration keeps select the columns that the given ones select. -/
lemma selected_of_make (h : ModelConfig.make columns options = .ok c) :
    ∃ given, ModelOptions.items? options.selected = .ok given ∧
      ∀ n, Selected c.selected n ↔ Selected given n := by
  unfold ModelConfig.make at h
  obtain ⟨given, hgiven, h⟩ := bind_eq_ok.mp h
  obtain ⟨selected, hselected, h⟩ := bind_eq_ok.mp h
  have hkept : c.selected = selected := by
    obtain ⟨_, -, h⟩ := bind_eq_ok.mp h
    obtain ⟨_, -, h⟩ := bind_eq_ok.mp h
    obtain ⟨_, -, h⟩ := bind_eq_ok.mp h
    obtain ⟨_, -, h⟩ := bind_eq_ok.mp h
    dsimp only at h
    split at h
    · cases h
    · split at h <;>
        · obtain ⟨_, -, h⟩ := bind_eq_ok.mp h
          obtain ⟨_, -, h⟩ := bind_eq_ok.mp h
          cases h
          rfl
  refine ⟨given, hgiven, fun n => ?_⟩
  rw [hkept]
  cases given with
  | none =>
    cases hselected
    rfl
  | some ids =>
    obtain ⟨sorted, hsorted, hsome⟩ := bind_eq_ok.mp hselected
    cases hsome
    simp [Selected, (sortedIds_perm hsorted).mem_iff]

end Choosing

section Frames

variable {a : Assembler} {f g : Frame} {id : Int} {name : String}

/-- Two frames that have the same columns under a name. -/
def SameUnder (f g : Frame) (name : String) : Prop :=
  f.columns.filter (·.1 == name) = g.columns.filter (·.1 == name)

/-- What is read of a column is the same in two frames that are the same under its name. -/
lemma columnOf_congr (hsize : f.size = g.size)
    (hsame : ∀ name, a.keyOf id = .ok (some name) → SameUnder f g name) :
    a.columnOf f id = a.columnOf g id := by
  unfold Assembler.columnOf
  cases hkey : a.keyOf id with
  | error e => rfl
  | ok key =>
    rw [ok_bind, ok_bind]
    cases key with
    | none =>
      unfold Frame.column
      rw [hsize]
      rfl
    | some name =>
      have hunder : f.columns.filter (·.1 == name) = g.columns.filter (·.1 == name) := hsame name hkey
      have hshared : f.isShared name = g.isShared name := by
        unfold Frame.isShared
        rw [hunder]
      have hcolumn : f.column (some name) = g.column (some name) := by
        unfold Frame.column
        rw [Option.bind_some, Option.bind_some, lookup_eq_filter, lookup_eq_filter, hunder, hsize]
      rw [Option.any_some, Option.any_some, hshared, hcolumn]

/-- The inputs of a frame are made of the columns that the assembler reads. -/
theorem frameInputs_congr (hsize : f.size = g.size)
    (hcolumns : ∀ id ∈ a.dense ++ a.embed ++ a.wide, a.columnOf f id = a.columnOf g id) :
    a.frameInputs f = a.frameInputs g := by
  have hdense : a.dense.mapM (a.denseColumn f) = a.dense.mapM (a.denseColumn g) := by
    refine mapM_congr fun id hid => ?_
    unfold Assembler.denseColumn
    rw [hcolumns id (mem_used (Or.inl hid))]
  have hindex : ∀ id ∈ a.dense ++ a.embed ++ a.wide, a.indexColumn f id = a.indexColumn g id := by
    intro id hid
    unfold Assembler.indexColumn
    rw [hcolumns id hid]
  have hembed : a.embed.mapM (a.indexColumn f) = a.embed.mapM (a.indexColumn g) :=
    mapM_congr fun id hid => hindex id (mem_used (Or.inr (Or.inl hid)))
  have hwide : a.wide.mapM (a.indexColumn f) = a.wide.mapM (a.indexColumn g) :=
    mapM_congr fun id hid => hindex id (mem_used (Or.inr (Or.inr hid)))
  unfold Assembler.frameInputs
  rw [hdense, hembed, hwide, hsize]

/-- The names that an assembler reads are simple names of the columns of its configuration. -/
lemma name_of_keyOf {c : ModelConfig} (h : c.assembler = .ok a) (hkey : a.keyOf id = .ok (some name)) :
    ∃ r ∈ c.columns, r.number = id ∧ r.simpleName = .ok (.text name) := by
  obtain ⟨_, -, h⟩ := bind_eq_ok.mp h
  obtain ⟨names, hnames, h⟩ := bind_eq_ok.mp h
  obtain ⟨stats, hstats, h⟩ := bind_eq_ok.mp h
  cases h
  unfold Assembler.keyOf at hkey
  cases hfeature : Assembler.feature? ⟨List.zipWith Feature.make names stats, c.norm, c.dense, c.embed,
      c.wide⟩ id with
  | none =>
    rw [hfeature] at hkey
    cases hkey
  | some feature =>
    rw [hfeature] at hkey
    unfold Assembler.feature? at hfeature
    have hid : feature.stats.number = id := by simpa using List.find?_some hfeature
    obtain ⟨i, hi, hat⟩ := List.mem_iff_getElem.mp (List.mem_of_find?_eq_some hfeature)
    rw [List.length_zipWith, lt_min_iff] at hi
    rw [List.getElem_zipWith] at hat
    -- the feature at a place has the name and the statistics of the column at the same place
    have hnamed := mapM_eq_ok.mp hnames
    have hread := mapM_eq_ok.mp hstats
    have hcolumn : i < c.columns.length := hnamed.length_eq ▸ hi.1
    have hname := hnamed.get hcolumn hi.1
    have hnumber := (stats_eq_ok (hread.get hcolumn hi.2)).1
    refine ⟨c.columns[i], List.getElem_mem hcolumn, ?_, ?_⟩
    · rw [← hid, ← hat]
      exact hnumber.symm
    · have htext : feature.name = .text name := by
        change feature.key? = .ok (some name) at hkey
        unfold Feature.key? at hkey
        split at hkey
        · rename_i s hs
          cases hkey
          exact hs
        · cases hkey
        · cases hkey
        · cases hkey
      rw [← htext, ← hat]
      exact hname

end Frames

section Uses

variable {columns : List ColumnRecord} {options : ModelOptions} {c : ModelConfig} {a : Assembler}
  {selection embedded : Option (List Document)} {f g : Frame}

/-- The columns that a configuration uses, by the columns that count, the ids that are selected and the
ids that are to be embedded. -/
structure Uses (columns : List ColumnRecord) (selection embedded : Option (List Document))
    (c : ModelConfig) : Prop where
  dense_increasing : c.dense.Pairwise (· < ·)
  mem_dense : ∀ n, n ∈ c.dense ↔ Selected selection n ∧
    ∃ r, Counted columns r ∧ r.number = n ∧ (r.kind = .numerical ∨ r.kind = .hybrid)
  wide_increasing : c.wide.Pairwise (· < ·)
  mem_wide : ∀ n, n ∈ c.wide ↔ Selected selection n ∧
    ∃ r, Counted columns r ∧ r.number = n ∧ r.kind = .categorical
  embed_categorical : ∀ n ∈ c.embed, ∃ r, Counted columns r ∧ r.number = n ∧ r.kind = .categorical
  embed_default : embedded = none → c.embed = c.wide
  embed_given : ∀ ids, embedded = some ids →
    List.Forall₂ (fun d n => ModelConfig.columnNumber d = .ok (some n)) ids c.embed

/-- Ids to embed that are selected, as far as ids are given. -/
def EmbedsSelected (embedded selection : Option (List Document)) : Prop :=
  ∀ ids, embedded = some ids →
    ∀ d ∈ ids, ∀ n, ModelConfig.columnNumber d = .ok (some n) → Selected selection n

lemma mem_chosen {kept : Option (List Document)} {p : ColumnRecord → Bool} {n : Int} :
    n ∈ ((ModelConfig.candidates (ColumnStatsOf.byNumber columns) kept).filter p).map (·.number) ↔
      Selected kept n ∧ ∃ r, Counted columns r ∧ r.number = n ∧ p r = true := by
  simp only [List.mem_map, List.mem_filter, mem_candidates, mem_byNumber]
  constructor
  · rintro ⟨r, ⟨⟨hr, hselected⟩, hp⟩, rfl⟩
    exact ⟨hselected, r, hr, rfl, hp⟩
  · rintro ⟨hselected, r, hr, rfl, hp⟩
    exact ⟨r, ⟨⟨hr, hselected⟩, hp⟩, rfl⟩

theorem uses_of_make (h : ModelConfig.make columns options = .ok c) :
    ∃ selection embedded, ModelOptions.items? options.selected = .ok selection ∧
      ModelOptions.items? options.embed = .ok embedded ∧ Uses columns selection embedded c := by
  obtain ⟨hcolumns, hdense, hwide, embedded, hembedded, hembed⟩ := modelConfig_eq_ok h
  obtain ⟨selection, hselection, hkept⟩ := selected_of_make h
  rw [hcolumns] at hdense hwide hembed
  refine ⟨selection, embedded, hselection, hembedded, ?_⟩
  obtain ⟨hnumbers, hcategorical⟩ := embedNumbers_eq_ok hembed
  refine
    { dense_increasing := hdense ▸ candidates_increasing _
      mem_dense := fun n => ?_
      wide_increasing := hwide ▸ candidates_increasing _
      mem_wide := fun n => ?_
      embed_categorical := fun n hn => ?_
      embed_default := fun hnone => ?_
      embed_given := fun ids hids => ?_ }
  · have hkind : ∀ r : ColumnRecord, (r.kind != .categorical) = true ↔
        r.kind = .numerical ∨ r.kind = .hybrid := by
      intro r
      cases r.kind <;> decide
    rw [hdense, mem_chosen, hkept]
    simp only [hkind]
  · rw [hwide, ModelConfig.categorical, mem_chosen, hkept]
    simp only [beq_iff_eq]
  · obtain ⟨r, hr, rfl⟩ := List.mem_map.mp (hcategorical n hn)
    obtain ⟨hr, hkind⟩ := List.mem_filter.mp hr
    exact ⟨r, mem_byNumber.mp hr, rfl, beq_iff_eq.mp hkind⟩
  · subst hnone
    exact embedNumbers_ints hembed
  · subst hids
    exact hnumbers

/-- All columns that a configuration uses are selected exactly if those that it is told to embed are. -/
lemma Uses.all_selected (h : Uses columns selection embedded c) :
    (∀ n ∈ c.dense ++ c.embed ++ c.wide, Selected selection n) ↔ EmbedsSelected embedded selection := by
  constructor
  · intro hall ids hids
    have hembed : ∀ m ∈ c.embed, Selected selection m := fun m hm =>
      hall m (List.mem_append_left _ (List.mem_append_right _ hm))
    refine forall_of_forall₂
      ((List.forall₂_and_left _ _).mpr ⟨hembed, (h.embed_given ids hids).flip⟩) ?_
    rintro m d ⟨hm, hnumber⟩ n hn
    obtain rfl : m = n := Option.some.inj (Except.ok.inj (hnumber.symm.trans hn))
    exact hm
  · intro hembeds n hn
    rcases List.mem_append.mp hn with hn | hn
    · rcases List.mem_append.mp hn with hn | hn
      · exact ((h.mem_dense n).mp hn).1
      · cases hgiven : embedded with
        | none =>
          rw [h.embed_default hgiven] at hn
          exact ((h.mem_wide n).mp hn).1
        | some ids =>
          refine forall_of_forall₂
            ((List.forall₂_and_left _ _).mpr ⟨hembeds ids hgiven, h.embed_given ids hgiven⟩) ?_ n hn
          exact fun d n hd => hd.1 n hd.2
    · exact ((h.mem_wide n).mp hn).1

/-- Frames that are the same under the names of the columns that are selected or embedded have the same
inputs. -/
theorem Uses.inputs_congr (h : Uses columns selection embedded c)
    (hcolumns : c.columns = ColumnStatsOf.byNumber columns) (ha : c.assembler = .ok a)
    (hsize : f.size = g.size)
    (hsame : ∀ r name, Counted columns r → Selected selection r.number ∨ r.number ∈ c.embed →
      r.simpleName = .ok (.text name) → SameUnder f g name) :
    a.frameInputs f = a.frameInputs g := by
  obtain ⟨hdense, hembed, hwide⟩ := columns_of_assembler ha
  refine frameInputs_congr hsize fun id hid => columnOf_congr hsize fun name hkey => ?_
  obtain ⟨r, hr, rfl, hname⟩ := name_of_keyOf ha hkey
  rw [hcolumns] at hr
  refine hsame r name (mem_byNumber.mp hr) ?_ hname
  rw [hdense, hembed, hwide] at hid
  rcases List.mem_append.mp hid with hid | hid
  · rcases List.mem_append.mp hid with hid | hid
    · exact Or.inl ((h.mem_dense _).mp hid).1
    · exact Or.inr hid
  · exact Or.inl ((h.mem_wide _).mp hid).1

/-- Which columns a configuration uses: as dense and as wide ones exactly the selected columns of their
kinds in increasing order, and as embedded ones categorical columns. All of them are selected exactly
if those that it is told to embed are, and the inputs of a frame depend on no other columns than the
selected and the embedded ones. -/
theorem selected_columns (h : ModelConfig.make columns options = .ok c) :
    ∃ selection embedded, ModelOptions.items? options.selected = .ok selection ∧
      ModelOptions.items? options.embed = .ok embedded ∧
      Uses columns selection embedded c ∧
      ((∀ n ∈ c.dense ++ c.embed ++ c.wide, Selected selection n) ↔
        EmbedsSelected embedded selection) ∧
      ∀ a f g, c.assembler = .ok a → f.size = g.size →
        (∀ r name, Counted columns r → Selected selection r.number ∨ r.number ∈ c.embed →
          r.simpleName = .ok (.text name) → SameUnder f g name) →
        a.frameInputs f = a.frameInputs g := by
  obtain ⟨selection, embedded, hselection, hembedded, huses⟩ := uses_of_make h
  exact ⟨selection, embedded, hselection, hembedded, huses, huses.all_selected,
    fun _ _ _ ha hsize hsame => huses.inputs_congr (modelConfig_eq_ok h).1 ha hsize hsame⟩

end Uses

section Sample

def paintColumns : List ColumnRecord :=
  [bareColumn 0 "colour" .categorical [], bareColumn 1 "shade" .categorical [],
    bareColumn 2 "age" .numerical []]

/-- The colour is selected and the shade embedded. -/
def paintOptions : ModelOptions where
  selected := .list [.int 0]
  embed := .list [.int 1]
  hidden := .list []
  activations := .list []

def paintConfig : ModelConfig :=
  ⟨paintColumns, some [.int 0], [], [1], [0], .int 16, [], [], 0, .zscale⟩

def paintFrame (age : Raw) : Frame :=
  ⟨1, [("colour", [.text "red"]), ("shade", [.text "dark"]), ("age", [age])]⟩

lemma make_paint : ModelConfig.make paintColumns paintOptions = .ok paintConfig := by
  have hsorted : (ColumnStatsOf.byNumber paintColumns).mergeSort
      (fun a b => decide (a.number ≤ b.number)) = paintColumns := by
    simp [ColumnStatsOf.byNumber, ColumnStatsOf.put, paintColumns, bareColumn, List.mergeSort,
      List.MergeSort.Internal.splitInTwo]
  unfold ModelConfig.make ModelConfig.candidates
  simp only [hsorted]
  rfl

/-- An embedded column need not be selected. The age is neither, and so it is not read. -/
theorem selected_columns_paint :
    ModelConfig.make paintColumns paintOptions = .ok paintConfig ∧
    (∃ n ∈ paintConfig.dense ++ paintConfig.embed ++ paintConfig.wide, ¬Selected (some [.int 0]) n) ∧
    ∀ a x y, paintConfig.assembler = .ok a →
      a.frameInputs (paintFrame x) = a.frameInputs (paintFrame y) := by
  obtain ⟨selection, embedded, hselection, hembedded, -, hall, hframes⟩ := selected_columns make_paint
  cases hselection
  cases hembedded
  have honly : ∀ n, Selected (some [.int 0]) n → n = 0 := by
    intro n h
    obtain ⟨d, hd, hnumber⟩ := h _ rfl
    rw [List.mem_singleton.mp hd] at hnumber
    exact (Option.some.inj (Except.ok.inj hnumber)).symm
  refine ⟨make_paint, ?_, fun a x y ha => hframes a _ _ ha rfl fun r name hr hused hname => ?_⟩
  · by_contra hnone
    push Not at hnone
    exact absurd (honly 1 (hall.mp hnone _ rfl (.int 1) List.mem_cons_self 1 rfl)) (by decide)
  · have hmem : r ∈ paintColumns := mem_byNumber.mpr hr
    have hnumber : r.number = 0 ∨ r.number = 1 :=
      hused.imp (honly _) fun h => List.mem_singleton.mp h
    unfold paintColumns at hmem
    simp only [List.mem_cons, List.not_mem_nil, or_false] at hmem
    rcases hmem with rfl | rfl | rfl
    · cases hname
      rfl
    · cases hname
      rfl
    · simp [bareColumn] at hnumber

end Sample

end WideDeep.Proofs
