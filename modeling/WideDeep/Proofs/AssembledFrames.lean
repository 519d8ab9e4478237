import Mathlib.Tactic
import WideDeep.Labelling
import WideDeep.Proofs.BatchInputs
import WideDeep.Proofs.CategoryRows
import WideDeep.Proofs.ConfiguredColumns
import WideDeep.Proofs.NormalizedValues
import WideDeep.Proofs.PlannedLayouts

/-!
# Frames of raw records

A configuration only reads columns that it has, so its assembler finds each of them. A frame with tags
is labelled and normalized, whatever values it holds and whichever columns it lacks, unless a name that
is read is shared by several of its columns or an integer that is normalized rounds to no double.
-/

namespace WideDeep.Proofs
open Binary

section Configurations

variable {columns : List ColumnRecord} {options : ModelOptions} {c : ModelConfig} {r : ColumnRecord}

/-- A column whose name and labels are texts. -/
def Written (r : ColumnRecord) : Prop :=
  ∃ s : ColumnStatsOf String (Stored Float), r = s.map .text id

lemma lookupName_written (h : Written r) :
    ∃ d, r.lookupName true = .ok d ∧ (d = .null ∨ ∃ s, d = .text s) := by
  obtain ⟨s, rfl⟩ := h
  cases hname : s.name with
  | none =>
    refine ⟨.null, ?_, Or.inl rfl⟩
    simp [ColumnRecord.lookupName, ColumnRecord.simpleName, ColumnStatsOf.map, hname]
    rfl
  | some name =>
    refine ⟨.text (simpleName name), ?_, Or.inr ⟨_, rfl⟩⟩
    simp [ColumnRecord.lookupName, ColumnRecord.simpleName, ColumnStatsOf.map, hname]
    rfl

lemma stats_written (h : Written r) : ∃ s, r.stats = .ok s := by
  obtain ⟨s, rfl⟩ := h
  have hlabels : (s.map Document.text id).labels.mapM ColumnRecord.labelText = .ok s.labels := by
    have htexts : (s.labels.map Document.text).mapM ColumnRecord.labelText = .ok (s.labels.map id) :=
      mapM_map_ok fun _ => rfl
    rwa [List.map_id] at htexts
  unfold ColumnRecord.stats
  rw [hlabels]
  exact ⟨_, rfl⟩

end Configurations

/-- An assembler that finds every column it reads, under a name that can be looked up. -/
def Complete (a : Assembler) : Prop :=
  ∀ id ∈ a.dense ++ a.embed ++ a.wide, ∃ f key, a.feature? id = some f ∧ f.key? = .ok key

section Assemblers

variable {columns : List ColumnRecord} {options : ModelOptions} {c : ModelConfig} {a : Assembler}

/-- The features of columns, found by the numbers of the columns. -/
lemma exists_feature {names : List Document} {stats : List ColumnStats} {id : Int}
    (hlength : names.length = stats.length) (h : id ∈ stats.map (·.number)) :
    ∃ f, (List.zipWith Feature.make names stats).find? (·.stats.number == id) = some f ∧
      f.name ∈ names := by
  have hnumbers : (List.zipWith Feature.make names stats).map (·.stats.number) =
      stats.map (·.number) := by
    rw [← List.map_uncurry_zip_eq_zipWith, List.map_map]
    calc (names.zip stats).map ((fun f : Feature => f.stats.number) ∘ Function.uncurry Feature.make)
        = (names.zip stats).map ((·.number) ∘ Prod.snd) := rfl
      _ = ((names.zip stats).map Prod.snd).map (·.number) := List.map_map.symm
      _ = stats.map (·.number) := by rw [List.map_snd_zip hlength.ge]
  rw [← hnumbers] at h
  obtain ⟨f, hf, hid⟩ := List.mem_map.mp h
  have hsome : ((List.zipWith Feature.make names stats).find? (·.stats.number == id)).isSome = true :=
    List.find?_isSome.mpr ⟨f, hf, beq_iff_eq.mpr hid⟩
  obtain ⟨g, hg⟩ := Option.isSome_iff_exists.mp hsome
  refine ⟨g, hg, ?_⟩
  have hmem := List.mem_of_find?_eq_some hg
  rw [← List.map_uncurry_zip_eq_zipWith] at hmem
  obtain ⟨p, hp, rfl⟩ := List.mem_map.mp hmem
  exact (List.of_mem_zip hp).1

/-- The assembler of a configuration is always built if the names and labels of its columns are
texts. -/
theorem assembler_of_make (hconfig : ModelConfig.make columns options = .ok c)
    (hwritten : ∀ r ∈ columns, Written r) : ∃ a, c.assembler = .ok a ∧ Complete a := by
  obtain ⟨hcolumns, -⟩ := modelConfig_eq_ok hconfig
  have hknown := known_of_make hconfig
  have hall : ∀ r ∈ c.columns, Written r := by
    intro r hr
    rw [hcolumns] at hr
    exact hwritten r ((puts_column.mem_foldl hr).resolve_left List.not_mem_nil)
  obtain ⟨names, hnames⟩ : ∃ names, c.columns.mapM (·.lookupName true) = .ok names :=
    exists_mapM_ok fun r hr => (lookupName_written (hall r hr)).imp fun _ h => h.1
  obtain ⟨stats, hstats⟩ : ∃ stats, c.columns.mapM ColumnRecord.stats = .ok stats :=
    exists_mapM_ok fun r hr => stats_written (hall r hr)
  have hunknown : Assembler.checkKnown (c.columns.map (·.number)) (c.dense ++ c.embed ++ c.wide) =
      .ok () := by
    have hnone : (c.dense ++ c.embed ++ c.wide).filter
        (fun id => !(c.columns.map (·.number)).contains id) = [] :=
      List.filter_eq_nil_iff.mpr fun id hid => by simpa using hknown id hid
    unfold Assembler.checkKnown
    rw [hnone]
    rfl
  refine ⟨⟨List.zipWith Feature.make names stats, c.norm, c.dense, c.embed, c.wide⟩, ?_, ?_⟩
  · unfold ModelConfig.assembler Assembler.make
    rw [hunknown, ok_bind, hnames, ok_bind, hstats]
    rfl
  · intro id hid
    have hlength : names.length = stats.length :=
      (mapM_eq_ok.mp hnames).length_eq.symm.trans (mapM_eq_ok.mp hstats).length_eq
    have hnumbers : stats.map (·.number) = c.columns.map (·.number) := by
      refine List.forall₂_eq_eq_eq ▸ ?_
      rw [List.forall₂_map_left_iff, List.forall₂_map_right_iff]
      exact ((mapM_eq_ok.mp hstats).imp fun _ _ h => (stats_eq_ok h).1).flip
    obtain ⟨f, hf, hname⟩ := exists_feature hlength (hnumbers ▸ hknown id hid)
    have htext : f.name = .null ∨ ∃ s, f.name = .text s :=
      forall_of_forall₂ ((List.forall₂_and_left _ _).mpr ⟨hall, mapM_eq_ok.mp hnames⟩)
        (fun r d ⟨hr, hd⟩ => by
          obtain ⟨d', hd', htext⟩ := lookupName_written hr
          cases hd.symm.trans hd'
          exact htext) f.name hname
    rcases htext with hnull | ⟨s, hs⟩
    · exact ⟨f, none, hf, by unfold Feature.key?; rw [hnull]⟩
    · exact ⟨f, some s, hf, by unfold Feature.key?; rw [hs]⟩

lemma named_of_complete (h : Complete a) : Named a := by
  intro id hid
  obtain ⟨f, key, hf, hkey⟩ := h id hid
  have hkeyOf : a.keyOf id = .ok key := by
    unfold Assembler.keyOf
    rw [hf]
    exact hkey
  exact keyOf_eq hkeyOf

/-- The dense columns normalize every value that is no integer beyond the doubles. -/
lemma normalized_of_complete (h : Complete a) {id : Int} (hid : id ∈ a.dense) {v : Raw}
    (hv : ¬BeyondDoubles v) : ∃ x, a.normalized id v = .ok x := by
  obtain ⟨f, -, hf, -⟩ := h id (mem_used (Or.inl hid))
  unfold Assembler.normalized
  rw [hf]
  exact (normalize_outcome f.stats a.norm v).2.1 fun hboth => hv hboth.2

end Assemblers

section Columns

variable {a : Assembler} {f : Frame} {id : Int}

/-- A frame in which no integer rounds to no double. -/
def WithinDoubles (f : Frame) : Prop :=
  ∀ c ∈ f.columns, ∀ v ∈ c.2, ¬BeyondDoubles v

/-- No name under which an assembler reads a column is shared by several columns of a frame. -/
def Clear (a : Assembler) (f : Frame) : Prop :=
  ∀ id ∈ a.dense ++ a.embed ++ a.wide, (keyAt a id).any f.isShared = false

lemma columnOf_eq_ok (hkey : a.keyOf id = .ok (keyAt a id)) {values : List Raw} :
    a.columnOf f id = .ok values ↔
      (keyAt a id).any f.isShared = false ∧ values = f.column (keyAt a id) := by
  unfold Assembler.columnOf
  rw [hkey, ok_bind]
  cases hshared : (keyAt a id).any f.isShared with
  | false =>
    simp only [Bool.false_eq_true, if_false, true_and]
    exact ⟨fun h => (Except.ok.inj h).symm, fun h => congrArg Except.ok h.symm⟩
  | true =>
    simp only [if_true, Bool.true_eq_false, false_and, iff_false]
    exact fun h => by cases h

/-- What is read from a column of a frame is missing or stands in the frame. -/
lemma mem_column {key : Option String} {v : Raw} (h : v ∈ f.column key) :
    v = .missing ∨ ∃ c ∈ f.columns, v ∈ c.2 := by
  unfold Frame.column at h
  cases hfound : key.bind fun n => f.columns.lookup n with
  | none =>
    rw [hfound] at h
    exact Or.inl (List.eq_of_mem_replicate h)
  | some values =>
    rw [hfound] at h
    obtain ⟨name, -, hlookup⟩ := Option.bind_eq_some_iff.mp hfound
    obtain ⟨before, after, hsplit, -⟩ := List.lookup_eq_some_iff.mp hlookup
    refine Or.inr ⟨(name, values), ?_, h⟩
    rw [hsplit]
    exact List.mem_append_right before List.mem_cons_self

lemma not_beyond_of_column (h : WithinDoubles f) {key : Option String} :
    ∀ v ∈ f.column key, ¬BeyondDoubles v := by
  intro v hv
  rcases mem_column hv with rfl | ⟨c, hc, hmem⟩
  · rintro ⟨n, hn, -⟩
    cases hn
  · exact h c hc v hmem

/-- If the inputs of a frame can be computed, then no name that is read is shared. -/
lemma clear_of_frameInputs (hnamed : Named a) {rows : List (Inputs Float32)}
    (h : a.frameInputs f = .ok rows) : Clear a f := by
  obtain ⟨dense, hdense, hrest⟩ := bind_eq_ok.mp h
  obtain ⟨embed, hembed, hrest⟩ := bind_eq_ok.mp hrest
  obtain ⟨wide, hwide, -⟩ := bind_eq_ok.mp hrest
  have hread : ∀ {β : Type} {g : Int → List Raw → Except Error β} (id : Int) (y : β),
      (a.columnOf f id >>= g id) = .ok y → ∃ values, a.columnOf f id = .ok values :=
    fun _ _ hy => (bind_eq_ok.mp hy).imp fun _ hvalues => hvalues.1
  intro id hid
  obtain ⟨values, hvalues⟩ := forall_used_of_steps hread hread hread hdense hembed hwide id hid
  exact ((columnOf_eq_ok (hnamed id hid)).mp hvalues).1

lemma frameInputs_of_clear (h : Complete a) (hsized : WithinDoubles f) (hclear : Clear a f) :
    ∃ rows, a.frameInputs f = .ok rows := by
  have hcolumn : ∀ id ∈ a.dense ++ a.embed ++ a.wide, a.columnOf f id = .ok (f.column (keyAt a id)) :=
    fun id hid => (columnOf_eq_ok (named_of_complete h id hid)).mpr ⟨hclear id hid, rfl⟩
  obtain ⟨dense, hdense⟩ : ∃ dense, a.dense.mapM (a.denseColumn f) = .ok dense := by
    refine exists_mapM_ok fun id hid => ?_
    unfold Assembler.denseColumn
    rw [hcolumn id (mem_used (Or.inl hid)), ok_bind]
    exact exists_mapM_ok fun v hv => normalized_of_complete h hid (not_beyond_of_column hsized v hv)
  have hindex : ∀ id ∈ a.dense ++ a.embed ++ a.wide, ∃ indices, a.indexColumn f id = .ok indices := by
    intro id hid
    unfold Assembler.indexColumn
    rw [hcolumn id hid]
    exact ⟨_, rfl⟩
  obtain ⟨embed, hembed⟩ : ∃ embed, a.embed.mapM (a.indexColumn f) = .ok embed :=
    exists_mapM_ok fun id hid => hindex id (mem_used (Or.inr (Or.inl hid)))
  obtain ⟨wide, hwide⟩ : ∃ wide, a.wide.mapM (a.indexColumn f) = .ok wide :=
    exists_mapM_ok fun id hid => hindex id (mem_used (Or.inr (Or.inr hid)))
  unfold Assembler.frameInputs
  rw [hdense, ok_bind, hembed, ok_bind, hwide, ok_bind]
  exact ⟨_, rfl⟩

/-- The inputs of a frame can be computed exactly if no name that is read is shared. -/
theorem frameInputs_ok_iff_clear (h : Complete a) (hsized : WithinDoubles f) :
    (∃ rows, a.frameInputs f = .ok rows) ↔ Clear a f :=
  ⟨fun ⟨_, hrows⟩ => clear_of_frameInputs (named_of_complete h) hrows, frameInputs_of_clear h hsized⟩

end Columns

section Kept

variable {a : Assembler} {f : Frame} {labels : Labelling} {target : String} {tags : List Raw}

/-- Leaving out records changes neither the names of the columns nor how many share one. -/
lemma isShared_filter (keep : List Bool) : (f.filter keep).isShared = f.isShared := by
  funext name
  unfold Frame.isShared Frame.filter
  dsimp only
  rw [List.filter_map, List.length_map]
  rfl

lemma clear_filter (keep : List Bool) : Clear a (f.filter keep) ↔ Clear a f := by
  unfold Clear
  rw [isShared_filter]

lemma withinDoubles_filter (h : WithinDoubles f) (keep : List Bool) : WithinDoubles (f.filter keep) := by
  intro c hc v hv
  obtain ⟨column, hcolumn, rfl⟩ := List.mem_map.mp hc
  obtain ⟨p, hp, rfl⟩ := List.mem_map.mp hv
  exact h column hcolumn _ (List.of_mem_zip (List.mem_of_mem_filter hp)).1

/-- No column of a frame gives weights to its records. -/
def Unweighted (labels : Labelling) (f : Frame) : Prop :=
  labels.weight.isAbsent = true ∨ ∃ name, labels.weight = .text name ∧ name ∉ f.columns.map Prod.fst

lemma weights_of_unweighted (h : Unweighted labels f) (keep : List Bool) :
    labels.weights (f.filter keep) = .ok (List.replicate (f.filter keep).size 1) := by
  unfold Labelling.weights
  dsimp only
  rcases h with habsent | ⟨name, hname, hlacking⟩
  · rw [if_pos habsent]
    rfl
  · have hnone : f.columns.filter (·.1 == name) = [] := by
      refine List.filter_eq_nil_iff.mpr fun c hc heq => hlacking ?_
      rw [← beq_iff_eq.mp heq]
      exact List.mem_map_of_mem hc
    have hshared : (f.filter keep).isShared name = false := by
      rw [isShared_filter, Frame.isShared, hnone]
      rfl
    have hlookup : (f.filter keep).columns.lookup name = none := by
      refine List.lookup_eq_none_iff.mpr fun c hc => bne_iff_ne.mpr fun heq => hlacking ?_
      obtain ⟨column, hcolumn, rfl⟩ := List.mem_map.mp hc
      exact List.mem_map.mpr ⟨column, hcolumn, heq.symm⟩
    have hcolumn : Labelling.columnOf? (f.filter keep) labels.weight = .ok none := by
      unfold Labelling.columnOf?
      rw [hname]
      dsimp only
      rw [hshared, hlookup]
      rfl
    rw [hcolumn]
    split <;> rfl

/-- A labelling by a name that one column has, without weights: what it makes of the records with a
valid tag. -/
lemma run_eq (htarget : labels.target = .text target) (htags : f.columns.lookup target = some tags)
    (hweight : Unweighted labels f) (hsingle : f.isShared target = false) :
    (labels.run a f).2 = (a.frameInputs (f.filter (tags.map labels.isValid))).map fun rows =>
      { denseWidth := a.dense.length, embedWidth := a.embed.length, wideWidth := a.wide.length
        samples := (rows.zip ((labels.targets tags).zip (List.replicate
          (f.filter (tags.map labels.isValid)).size 1))).map fun p => ⟨p.1, p.2.1, p.2.2⟩ } := by
  have hcolumn : Labelling.columnOf? f labels.target = .ok (some tags) := by
    unfold Labelling.columnOf?
    rw [htarget]
    dsimp only
    rw [hsingle, htags]
    rfl
  unfold Labelling.run
  rw [hcolumn]
  dsimp only
  rw [weights_of_unweighted hweight]
  cases a.frameInputs (f.filter (tags.map labels.isValid)) with
  | error e => rfl
  | ok rows => rfl

/-- A frame with tags and without weights is labelled and normalized exactly if no name that is read
is shared. -/
theorem run_ok_iff_clear (h : Complete a) (htarget : labels.target = .text target)
    (htags : f.columns.lookup target = some tags) (hweight : Unweighted labels f)
    (hsized : WithinDoubles f) :
    (∃ d, (labels.run a f).2 = .ok d) ↔ f.isShared target = false ∧ Clear a f := by
  cases hshared : f.isShared target with
  | true =>
    have hcolumn : Labelling.columnOf? f labels.target = .error .wrongType := by
      unfold Labelling.columnOf?
      rw [htarget]
      dsimp only
      rw [if_pos hshared]
    unfold Labelling.run
    rw [hcolumn]
    simp
  | false =>
    rw [run_eq htarget htags hweight hshared, map_ok_iff,
      frameInputs_ok_iff_clear h (withinDoubles_filter hsized _), clear_filter]
    simp only [true_and]

/-- Records made of as many inputs, targets and weights. -/
lemma samples_of_columns {rows : List (Inputs Float32)} {targets weights : List Float32}
    (htargets : rows.length = targets.length) (hweights : targets.length = weights.length) :
    ((rows.zip (targets.zip weights)).map fun p => (⟨p.1, p.2.1, p.2.2⟩ : Sample Float32)).length =
        rows.length ∧
      ((rows.zip (targets.zip weights)).map fun p => (⟨p.1, p.2.1, p.2.2⟩ : Sample Float32)).map
        (·.target) = targets := by
  have hpairs : (targets.zip weights).length = rows.length := by
    rw [List.length_zip, ← hweights, min_self, htargets]
  refine ⟨by rw [List.length_map, List.length_zip, hpairs, min_self], ?_⟩
  calc ((rows.zip (targets.zip weights)).map fun p => (⟨p.1, p.2.1, p.2.2⟩ : Sample Float32)).map
        (·.target)
      = ((rows.zip (targets.zip weights)).map Prod.snd).map Prod.fst := by
        rw [List.map_map, List.map_map]
        rfl
    _ = targets := by rw [List.map_snd_zip hpairs.le, List.map_fst_zip hweights.le]

/-- What a labelling without weights keeps: one record for each valid tag, with its target, and with
one as its weight. -/
theorem kept_of_run {d : Dataset Float32} (htarget : labels.target = .text target)
    (htags : f.columns.lookup target = some tags) (hweight : Unweighted labels f)
    (hrun : (labels.run a f).2 = .ok d) :
    d.size = (tags.filter labels.isValid).length ∧
      d.samples.map (·.target) = labels.targets tags ∧ ∀ s ∈ d.samples, s.weight = 1 := by
  have hsingle : f.isShared target = false := by
    by_contra hshared
    rw [Bool.not_eq_false] at hshared
    unfold Labelling.run Labelling.columnOf? at hrun
    rw [htarget] at hrun
    dsimp only at hrun
    rw [if_pos hshared] at hrun
    cases hrun
  rw [run_eq htarget htags hweight hsingle] at hrun
  obtain ⟨rows, hrows, rfl⟩ := map_eq_ok.mp hrun
  have hkept : (f.filter (tags.map labels.isValid)).size = (tags.filter labels.isValid).length := by
    unfold Frame.filter
    dsimp only
    rw [List.filter_map, List.length_map]
    rfl
  have hrowCount : rows.length = (tags.filter labels.isValid).length := by
    obtain ⟨dense, -, hrest⟩ := bind_eq_ok.mp hrows
    obtain ⟨embed, -, hrest⟩ := bind_eq_ok.mp hrest
    obtain ⟨wide, -, hrest⟩ := bind_eq_ok.mp hrest
    rw [← Except.ok.inj hrest, List.length_map, List.length_range, hkept]
  have htargets : (labels.targets tags).length = (tags.filter labels.isValid).length :=
    List.length_map _
  obtain ⟨weights, hones⟩ : ∃ weights : List Float32,
      weights = List.replicate (f.filter (tags.map labels.isValid)).size 1 := ⟨_, rfl⟩
  rw [← hones]
  have hweights : weights.length = (tags.filter labels.isValid).length := by
    rw [hones, List.length_replicate, hkept]
  obtain ⟨hlength, hcolumn⟩ := samples_of_columns (hrowCount.trans htargets.symm)
    (htargets.trans hweights.symm)
  refine ⟨hlength.trans hrowCount, hcolumn, fun s hs => ?_⟩
  obtain ⟨p, hp, rfl⟩ := List.mem_map.mp hs
  have hmem := (List.of_mem_zip (List.of_mem_zip hp).2).2
  rw [hones] at hmem
  exact List.eq_of_mem_replicate hmem

end Kept

end WideDeep.Proofs
