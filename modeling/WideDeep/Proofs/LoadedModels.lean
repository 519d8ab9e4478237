import Mathlib.Tactic
import WideDeep.ModelFile.Reader
import WideDeep.Proofs.ModelShape
import WideDeep.Proofs.ReadValues

/-!
# Models that have been loaded

Whatever the bytes are, a model that is loaded from them has one table for each of its columns, and
its layers fit together. It scores every record of as many dense values as it reads, unless the file
has given one of its tables no row: the reader does not ask that there is a row for missing values.
-/

namespace WideDeep.Proofs

section Reading

/-- Columns that sort like those of tables that were put one after the other are distinct. -/
lemma nodup_of_sorted {tables : List TableSize} {columns : List Int}
    (h : Model.sortedInts ((tables.foldl TableSize.put []).map (·.column)) =
      Model.sortedInts columns) : columns.Nodup := by
  have hnodup : ((tables.foldl TableSize.put []).map (·.column)).Nodup :=
    puts_table.foldl_nodup tables List.nodup_nil
  unfold Model.sortedInts at h
  have hperm := (List.mergeSort_perm columns fun a b => decide (a ≤ b)).symm
  rw [← h] at hperm
  exact (hperm.trans (List.mergeSort_perm _ _)).nodup_iff.mpr hnodup

/-- The layout of a model that is read has one table for each column. -/
theorem yields_model : Yields (fun m : Model Float32 => Coherent m.layout) Model.read := by
  refine (Yields.any _).bind fun dense _ => (Yields.any _).bind fun embed _ =>
    (Yields.any _).bind fun wide _ => (Yields.any _).bind fun embedCount _ =>
    (Yields.any _).bind fun embedRecords _ => Yields.check fun hembed =>
    (Yields.any _).bind fun wideCount _ => (Yields.any _).bind fun wideRecords _ =>
    Yields.check fun hwide => (Yields.any _).bind fun bias _ => (Yields.any _).bind fun count _ =>
    Yields.check fun _ => (Yields.any _).bind fun layers _ => (Yields.any _).bind fun l2 _ =>
    (Yields.any _).bind fun _ _ => (Yields.any _).bind fun _ _ =>
    (Yields.liftExcept _).bind fun layout hlayout => ?_
  simp only [bne_iff_ne, ne_eq, not_not] at hembed hwide
  obtain ⟨hembedColumns, hwideColumns⟩ := columns_of_make rfl rfl hlayout
  have hcoherent : Coherent layout := coherent_of_make hlayout
    (hembedColumns ▸ nodup_of_sorted hembed) (hwideColumns ▸ nodup_of_sorted hwide)
  intro bytes m rest hrun
  have hload := Yields.liftExcept _ bytes m rest hrun
  obtain ⟨-, rfl⟩ := load_eq_ok.mp hload
  exact hcoherent

theorem yields_body (version : Int) :
    Yields (fun s : StoredModel => Coherent s.model.layout) (StoredModel.readBody version) := by
  refine (Yields.any _).bind fun _ _ => (Yields.any _).bind fun _ _ =>
    (Yields.any _).bind fun _ _ => (Yields.any _).bind fun _ _ =>
    (Yields.any _).bind fun name _ => ?_
  split
  · exact Yields.fault _
  · exact (Yields.any _).bind fun count _ => (Yields.any _).bind fun columns _ =>
      yields_model.bind fun model hmodel => Yields.pure hmodel

/-- What every body of a file gives holds of what is loaded, for a version that is accepted. -/
theorem load_yields {P : Int → StoredModel → Prop}
    (hP : ∀ version, Yields (P version) (StoredModel.readBody version)) {strict : Bool}
    {bytes : Bytes} {s : StoredModel} (h : (StoredModel.load strict bytes).2 = .ok s) :
    ∃ version, P version s ∧ (strict = true → version = ModelFile.currentVersion) := by
  have hplain : ∀ plain, (StoredModel.readPlain strict plain).2 = .ok s →
      ∃ version, P version s ∧ (strict = true → version = ModelFile.currentVersion) := by
    intro plain hread
    unfold StoredModel.readPlain at hread
    split at hread
    · cases hread
    · rename_i version rest hversion
      dsimp only at hread
      split at hread
      · rename_i hcurrent
        exact ⟨version, hP version rest s _ (Prod.ext hread rfl), fun _ => beq_iff_eq.mp hcurrent⟩
      · split at hread
        · cases hread
        · rename_i hother
          exact ⟨version, hP version rest s _ (Prod.ext hread rfl), fun hstrict => absurd hstrict hother⟩
  unfold StoredModel.load at h
  dsimp only at h
  split at h
  · cases h
  · rename_i plain _
    cases hresult : (StoredModel.readPlain strict plain).2 with
    | error e =>
      dsimp only at h
      rw [hresult] at h
      cases h
    | ok loaded =>
      dsimp only at h
      rw [hresult] at h
      cases h
      exact hplain plain hresult

/-- The layout of a model that is loaded has one table for each column. -/
theorem load_coherent {strict : Bool} {bytes : Bytes} {s : StoredModel}
    (h : (StoredModel.load strict bytes).2 = .ok s) : Coherent s.model.layout := by
  obtain ⟨_, hcoherent, -⟩ := load_yields (P := fun _ s => Coherent s.model.layout) yields_body h
  exact hcoherent

end Reading

section Scoring

/-- A model that is loaded is well formed up to the number of rows of its tables. For as many dense
values as it reads and indices that are machine words it gives exactly one score, every number of
which is found in the model, if each table has a row; if one has none, it gives no score at all. -/
theorem load_scorable {strict : Bool} {bytes : Bytes} {notices : List Notice} {s : StoredModel}
    (h : StoredModel.load strict bytes = (notices, .ok s)) :
    WellFormed s.model ∧
    ∀ (dense : List Float32) (embed wide : List SparseInput),
      dense.length = s.model.layout.dense.length →
      (∀ i ∈ embed ++ wide, fitsIndex i.index = true) →
      (Filled s.model.layout →
        Determined s.model (inputsFor s.model.layout dense embed wide) ∧
        s.model.compute dense embed wide =
          .ok [s.model.score (inputsFor s.model.layout dense embed wide)]) ∧
      (¬Filled s.model.layout → s.model.compute dense embed wide = .error .emptyTable) := by
  have hcoherent : Coherent s.model.layout := load_coherent (congrArg Prod.snd h)
  refine ⟨wellFormed_of_coherent hcoherent, fun dense embed wide hdense hindices => ?_⟩
  obtain ⟨hscored, hrefused⟩ := compute_of_coherent hcoherent hdense hindices
  refine ⟨fun hfilled => ⟨?_, hscored hfilled⟩, hrefused⟩
  exact determined_of_filled hcoherent hfilled hdense embed wide

end Scoring

section Sample

/-- A file of a model with one wide column, whose table has no row. -/
def rowlessFile : Bytes :=
  [0, 0, 0, 1, 0, 0, 0, 0, 0, 0, 0, 0, 0, 0, 0, 0, 0, 0, 0, 0, 0, 0, 0, 6, 90, 83, 67, 65, 76, 69,
    0, 0, 0, 0, 0, 0, 0, 0, 0, 0, 0, 0, 0, 0, 0, 1, 0, 0, 0, 0, 0, 0, 0, 0, 0, 0, 0, 1, 0, 0, 0, 0,
    0, 0, 0, 0, 0, 0, 0, 0, 0, 0, 0, 1, 0, 0, 0, 0, 0, 0, 0, 1, 0, 0, 0, 0, 0, 6, 108, 105, 110, 101,
    97, 114, 0, 0, 0, 0]

set_option maxRecDepth 10000 in
lemma load_rowless : (StoredModel.load true rowlessFile).2.toOption.map
    (fun s => (s.model.layout.dense, s.model.layout.wideTables)) = some ([], [⟨0, 0, 1⟩]) := by
  decide +kernel

theorem load_scorable_rowless : ∃ notices s,
    StoredModel.load true rowlessFile = (notices, .ok s) ∧
    s.model.compute [] [] [⟨0, 0⟩] = .error .emptyTable := by
  have hloaded := load_rowless
  cases hload : StoredModel.load true rowlessFile with
  | mk notices result =>
    rw [hload] at hloaded
    cases result with
    | error e => cases hloaded
    | ok s =>
      have hlayout := Prod.mk.inj (Option.some.inj hloaded)
      have hrowless : ¬Filled s.model.layout := by
        intro hfilled
        have hpos := hfilled ⟨0, 0, 1⟩ (List.mem_append_right _ (hlayout.2 ▸ List.mem_cons_self))
        exact Nat.lt_irrefl 0 hpos
      have hscores := (load_scorable hload).2 [] [] [⟨0, 0⟩]
        (by rw [hlayout.1, List.length_nil, List.length_nil]) (by decide)
      exact ⟨notices, s, rfl, hscores.2 hrowless⟩

end Sample

end WideDeep.Proofs
