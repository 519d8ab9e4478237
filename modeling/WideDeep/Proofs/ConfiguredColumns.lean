import Mathlib.Tactic
import WideDeep.Config.Model
import WideDeep.Proofs.ColumnCodec
import WideDeep.Proofs.Results

/-!
# The columns of a configuration

A configuration keeps one column for each number and reads no other columns. Its wide columns are
distinct; the embedded ones are those that it is given, and the wide ones if it is given none.
-/

namespace WideDeep.Proofs

section Embedded

variable {categorical numbers embed : List Int} {ids : List Document}

lemma eq_map_some {found : List (Option Int)} (h : ∀ number ∈ found, number.isSome) :
    ∃ numbers : List Int, found = numbers.map some := by
  induction found with
  | nil => exact ⟨[], rfl⟩
  | cons number rest ih =>
    obtain ⟨n, hn⟩ := Option.isSome_iff_exists.mp (h number List.mem_cons_self)
    obtain ⟨numbers, hnumbers⟩ := ih fun other hother => h other (List.mem_cons_of_mem number hother)
    exact ⟨n :: numbers, by rw [hn, hnumbers, List.map_cons]⟩

/-- The ids of columns to embed are the numbers of categorical columns. -/
theorem embedNumbers_eq_ok (h : ModelConfig.embedNumbers categorical ids = .ok embed) :
    List.Forall₂ (fun d n => ModelConfig.columnNumber d = .ok (some n)) ids embed ∧
      ∀ n ∈ embed, n ∈ categorical := by
  obtain ⟨found, hfound, h⟩ := bind_eq_ok.mp h
  dsimp only at h
  split at h
  · cases h
  · rename_i hnone
    cases h
    have hpairs := mapM_eq_ok.mp hfound
    have hknown : ∀ number ∈ found, number.any categorical.contains = true := by
      intro number hmem
      rw [← List.map_snd_zip hpairs.length_eq.ge] at hmem
      obtain ⟨p, hp, rfl⟩ := List.mem_map.mp hmem
      by_contra hunknown
      refine hnone ?_
      rw [Bool.not_eq_true', List.isEmpty_eq_false_iff_exists_mem]
      exact ⟨_, List.mem_map_of_mem (List.mem_filter.mpr ⟨hp, by simpa using hunknown⟩)⟩
    obtain ⟨numbers, rfl⟩ := eq_map_some fun number hmem =>
      Option.isSome_of_any (hknown number hmem)
    have hkept : (numbers.map some).filterMap id = numbers := by
      rw [List.filterMap_map]
      exact List.filterMap_some
    rw [List.forall₂_map_right_iff] at hpairs
    rw [hkept]
    refine ⟨hpairs, fun n hn => ?_⟩
    exact List.contains_iff_mem.mp (hknown (some n) (List.mem_map_of_mem hn))

lemma embedNumbers_ints (h : ModelConfig.embedNumbers categorical (numbers.map .int) = .ok embed) :
    embed = numbers := by
  have hpairs := List.forall₂_map_left_iff.mp (embedNumbers_eq_ok h).1
  have hequal : List.Forall₂ (fun n m => n = m) numbers embed :=
    hpairs.imp fun _ _ hnumber => Option.some.inj (Except.ok.inj hnumber)
  exact (List.forall₂_eq_eq_eq ▸ hequal).symm

end Embedded

section Configured

variable {columns : List ColumnRecord} {options : ModelOptions} {c : ModelConfig}

/-- What a configuration takes from its columns. -/
theorem modelConfig_eq_ok (h : ModelConfig.make columns options = .ok c) :
    c.columns = ColumnStatsOf.byNumber columns ∧
      c.dense = ((ModelConfig.candidates c.columns c.selected).filter
        (·.kind != .categorical)).map (·.number) ∧
      c.wide = ModelConfig.categorical (ModelConfig.candidates c.columns c.selected) ∧
      ∃ given, ModelOptions.items? options.embed = .ok given ∧
        ModelConfig.embedNumbers (ModelConfig.categorical c.columns)
          (given.getD (c.wide.map .int)) = .ok c.embed := by
  unfold ModelConfig.make at h
  obtain ⟨_, -, h⟩ := bind_eq_ok.mp h
  obtain ⟨selected, -, h⟩ := bind_eq_ok.mp h
  obtain ⟨given, hgiven, h⟩ := bind_eq_ok.mp h
  obtain ⟨embed, hembed, h⟩ := bind_eq_ok.mp h
  obtain ⟨hidden, -, h⟩ := bind_eq_ok.mp h
  obtain ⟨activations, -, h⟩ := bind_eq_ok.mp h
  dsimp only at h
  split at h
  · cases h
  · split at h <;>
      · obtain ⟨l2, -, h⟩ := bind_eq_ok.mp h
        obtain ⟨norm, -, h⟩ := bind_eq_ok.mp h
        cases h
        exact ⟨rfl, rfl, rfl, given, hgiven, hembed⟩

lemma mem_numbers_of_candidates {selected : Option (List Document)} {p : ColumnRecord → Bool} {n : Int}
    (h : n ∈ ((ModelConfig.candidates columns selected).filter p).map (·.number)) :
    n ∈ columns.map (·.number) := by
  obtain ⟨r, hr, rfl⟩ := List.mem_map.mp h
  exact List.mem_map_of_mem (List.mem_mergeSort.mp (List.mem_of_mem_filter (List.mem_of_mem_filter hr)))

/-- A configuration reads no other columns than it has. -/
theorem known_of_make (h : ModelConfig.make columns options = .ok c) :
    ∀ id ∈ c.dense ++ c.embed ++ c.wide, id ∈ c.columns.map (·.number) := by
  obtain ⟨-, hdense, hwide, _, -, hembed⟩ := modelConfig_eq_ok h
  intro id hid
  rcases List.mem_append.mp hid with hid | hid
  · rcases List.mem_append.mp hid with hid | hid
    · exact mem_numbers_of_candidates (hdense ▸ hid)
    · obtain ⟨r, hr, rfl⟩ := List.mem_map.mp ((embedNumbers_eq_ok hembed).2 id hid)
      exact List.mem_map_of_mem (List.mem_of_mem_filter hr)
  · exact mem_numbers_of_candidates (hwide ▸ hid)

lemma categorical_nodup (columns : List ColumnRecord) (selected : Option (List Document)) :
    (ModelConfig.categorical
      (ModelConfig.candidates (ColumnStatsOf.byNumber columns) selected)).Nodup := by
  have hsorted : (((ColumnStatsOf.byNumber columns).mergeSort fun a b =>
      decide (a.number ≤ b.number)).map (·.number)).Nodup :=
    ((List.mergeSort_perm _ _).map _).nodup_iff.mpr (byNumber_nodup columns)
  have hsub : (ModelConfig.categorical
      (ModelConfig.candidates (ColumnStatsOf.byNumber columns) selected)).Sublist
      (((ColumnStatsOf.byNumber columns).mergeSort fun a b =>
        decide (a.number ≤ b.number)).map (·.number)) :=
    (List.filter_sublist.trans List.filter_sublist).map _
  exact hsorted.sublist hsub

/-- A configuration names no wide column twice. -/
lemma wide_nodup_of_make (h : ModelConfig.make columns options = .ok c) : c.wide.Nodup := by
  obtain ⟨hcolumns, -, hwide, -⟩ := modelConfig_eq_ok h
  rw [hwide, hcolumns]
  exact categorical_nodup columns c.selected

/-- A configuration that names no columns to embed embeds the wide ones. -/
lemma embed_of_default (h : ModelConfig.make columns options = .ok c)
    (hdefault : options.embed = .null) : c.embed = c.wide := by
  obtain ⟨-, -, -, given, hgiven, hembed⟩ := modelConfig_eq_ok h
  rw [hdefault] at hgiven
  cases hgiven
  exact embedNumbers_ints hembed

end Configured

section Sample

/-- A column without bins, with a mean of zero and a deviation of one. -/
def bareColumn (number : Int) (name : String) (kind : ColumnKind) (labels : List String) :
    ColumnRecord where
  number := number
  name := some (.text name)
  kind := kind
  mean := 0
  stddev := .plain 1
  cutoff := .plain 4
  boundaries := []
  labels := labels.map .text
  countEvidence := []
  weightedEvidence := []
  evidenceMean := 0
  evidenceStddev := .plain 1
  weightedMean := 0
  weightedStddev := .plain 1
  countEvidence_fits := rfl
  weightedEvidence_fits := rfl

def skyColumn : ColumnRecord :=
  bareColumn 0 "sky" .categorical ["clear", "overcast"]

def skyOptions : ModelOptions where
  embedWidth := .int 1
  hidden := .list []
  activations := .list []

/-- One categorical column, which is wide and embedded in one number. -/
def skyConfig : ModelConfig :=
  ⟨[skyColumn], none, [], [0], [0], .int 1, [], [], 0, .zscale⟩

lemma make_sky : ModelConfig.make [skyColumn] skyOptions = .ok skyConfig := by
  simp [ModelConfig.make, ModelOptions.items?, skyOptions, skyColumn, bareColumn, skyConfig, ok_bind,
    ModelConfig.candidates, ColumnStatsOf.byNumber, ColumnStatsOf.put]
  rfl

end Sample

end WideDeep.Proofs
