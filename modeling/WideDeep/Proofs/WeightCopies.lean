import Mathlib.Tactic
import WideDeep.Model.Copy
import WideDeep.Proofs.Recovery

/-!
# Copies of weights

Behind the check of a source every parameter finds a tensor of its shape, so the overwriting of the
parameters reaches its end. A copy thus brings all weights of the source, or it leaves the model as it
was.
-/

namespace WideDeep.Proofs

/-- A source that a model can take its weights from: tensors under exactly the names of the parameters
and of their shapes, which if they are those of a model belong to the same columns and activations. -/
structure Suits (m : Model Float32) (source : WeightSource) : Prop where
  weights : Fits m.parameters source.weights
  columns : ∀ other, source = .model other →
    m.layout.dense = other.layout.dense ∧ m.layout.embed = other.layout.embed ∧
      m.layout.wide = other.layout.wide ∧ m.layout.activations = other.layout.activations

section Check

variable {m other : Model Float32} {source : WeightSource}

lemma check_iff_fits {ps : Parameters Float32} :
    Parameters.check m.layout.shapes ps = .ok () ↔ Fits m.parameters ps := by
  rw [check_eq_ok, names_layout, fits_iff, m.parameters_fit]
  constructor
  · rintro ⟨hwanted, hgiven, hshapes⟩
    exact ⟨fun n => ⟨hwanted n, hgiven n⟩, hshapes⟩
  · rintro ⟨hnames, hshapes⟩
    exact ⟨fun n => (hnames n).mp, fun n => (hnames n).mpr, hshapes⟩

lemma checkSource_model : m.checkSource (.model other) =
    (Model.checkLayout m.layout other.layout >>= fun _ =>
      Parameters.check m.layout.shapes other.parameters) := rfl

lemma checkSource_arrays {given : Parameters Number} : m.checkSource (.arrays given) =
    Parameters.check m.layout.shapes (given.mapValues Number.toSingle) := rfl

/-- The check of a copy lets through what suits the model. -/
theorem checkSource_eq_ok : m.checkSource source = .ok () ↔ Suits m source := by
  cases source with
  | model other =>
    rw [checkSource_model, bind_eq_ok]
    constructor
    · rintro ⟨_, hlayout, hweights⟩
      refine ⟨check_iff_fits.mp hweights, fun _ heq => ?_⟩
      cases heq
      exact checkLayout_eq_ok.mp hlayout
    · intro h
      exact ⟨(), checkLayout_eq_ok.mpr (h.columns other rfl), check_iff_fits.mpr h.weights⟩
  | arrays given =>
    rw [checkSource_arrays, check_iff_fits]
    exact ⟨fun h => ⟨h, fun _ heq => nomatch heq⟩, fun h => h.weights⟩

lemma checkSource_error {e : Error} (h : m.checkSource source = .error e) : e.kind = .shapeMismatch := by
  cases source with
  | model other =>
    rcases bind_eq_error.mp h with hlayout | ⟨_, -, hweights⟩
    · exact checkLayout_error hlayout
    · exact check_error hweights
  | arrays given => exact check_error h

end Check

section Overwriting

variable {m other : Model Float32} {source : WeightSource}

/-- Parameters that all find a tensor of their shape are overwritten to the last. -/
theorem overwriteAll_of_found {given ps : Parameters Float32}
    (h : ∀ p ∈ ps, ∃ t, given.get? p.1 = some t ∧ t.shape = p.2.shape) :
    Model.overwriteAll given ps = (ps.map fun p => (p.1, given.tensor p.1), .ok ()) := by
  induction ps with
  | nil => rfl
  | cons p rest ih =>
    obtain ⟨⟨t, hget, hshape⟩, hrest⟩ := List.forall_mem_cons.mp h
    have hlaid : t.laidOver p.2.shape = .ok t := if_pos hshape
    have htensor : given.tensor p.1 = t := by
      unfold Parameters.tensor
      rw [hget, Option.getD_some]
    unfold Model.overwriteAll
    simp only [hget, hlaid, ih hrest, List.map_cons, htensor]

/-- Overwritten parameters are those of the source, laid out as those of the model. -/
lemma fit_of_fits {ps : Parameters Float32} (h : Fits m.parameters ps) :
    Parameters.fit m.layout.shapes ps = m.parameters.map fun p => (p.1, ps.tensor p.1) := by
  rw [← m.parameters_fit, fit_of_shapes (fits_iff.mp h).2, Parameters.shapes, List.map_map]
  rfl

/-- A copy ends in one of two ways. -/
theorem copy_cases (m : Model Float32) (source : WeightSource) :
    (m.checkSource source = .ok () ∧ Suits m source ∧
        m.copy source = ⟨Model.ofParameters m.layout source.weights, .ok ()⟩) ∨
      ∃ e, m.checkSource source = .error e ∧ ¬Suits m source ∧ e.kind = .shapeMismatch ∧
        m.copy source = ⟨m, .error e⟩ := by
  unfold Model.copy
  cases hcheck : m.checkSource source with
  | error e =>
    refine Or.inr ⟨e, rfl, fun h => ?_, checkSource_error hcheck, rfl⟩
    rw [checkSource_eq_ok.mpr h] at hcheck
    cases hcheck
  | ok _ =>
    -- Every parameter finds a tensor of its own shape, so no copy stretches one and none fails.
    have hsuits := checkSource_eq_ok.mp hcheck
    have hdone := overwriteAll_of_found hsuits.weights.found
    rw [← fit_of_fits hsuits.weights] at hdone
    refine Or.inl ⟨rfl, hsuits, ?_⟩
    simp only [hdone, Model.ofParameters]

/-- What a copy leaves if it succeeds is the layout with the checked weights. -/
lemma copy_eq_checked : ((m.copy source).result.map fun _ => (m.copy source).model) =
    (m.checkSource source).map fun _ => Model.ofParameters m.layout source.weights := by
  rcases copy_cases m source with ⟨hcheck, -, hcopy⟩ | ⟨e, hcheck, -, -, hcopy⟩
  · rw [hcopy, hcheck]
  · rw [hcopy, hcheck]
    rfl

/-- The weights of a checkpoint are taken by the copy of a model. -/
theorem update_eq_copy : m.update other =
    (m.copy (.model other)).result.map fun _ => (m.copy (.model other)).model := by
  rw [copy_eq_checked, checkSource_model]
  unfold Model.update Model.load
  cases Model.checkLayout m.layout other.layout with
  | error e => rfl
  | ok _ =>
    rw [ok_bind, ok_bind]
    cases Parameters.check m.layout.shapes other.parameters <;> rfl

/-- Weights are loaded by the copy of their arrays. -/
theorem load_eq_copy {given : Parameters Number} : m.load (given.mapValues Number.toSingle) =
    (m.copy (.arrays given)).result.map fun _ => (m.copy (.arrays given)).model := by
  rw [copy_eq_checked, checkSource_arrays]
  unfold Model.load
  cases Parameters.check m.layout.shapes (given.mapValues Number.toSingle) <;> rfl

/-- A copy succeeds exactly if the source suits the model. It then changes no more of the model than its
weights, and each of them is the one of its name in the source, in single precision. A copy that fails
reports that shapes do not match and changes nothing. -/
theorem copy_whole (m : Model Float32) (source : WeightSource) :
    ((m.copy source).result = .ok () ↔ Suits m source) ∧
    (Suits m source → (m.copy source).model.layout = m.layout ∧
      (m.copy source).model.parameters.names = m.parameters.names ∧
      ∀ p ∈ (m.copy source).model.parameters, source.weights.get? p.1 = some p.2) ∧
    (¬Suits m source → (m.copy source).model = m ∧
      ∃ e, (m.copy source).result = .error e ∧ e.kind = .shapeMismatch) := by
  rcases copy_cases m source with ⟨-, hsuits, hcopy⟩ | ⟨e, -, hrefused, hkind, hcopy⟩
  · rw [hcopy]
    refine ⟨iff_of_true rfl hsuits, fun _ => ⟨rfl, ?_, ?_⟩, fun h => absurd hsuits h⟩
    · exact (names_layout _).symm.trans (names_layout m)
    · intro p hp
      change p ∈ Parameters.fit m.layout.shapes source.weights at hp
      rw [fit_of_fits hsuits.weights] at hp
      obtain ⟨own, hown, rfl⟩ := List.mem_map.mp hp
      exact get?_of_mem (((fits_iff.mp hsuits.weights).1 own.1).mp (List.mem_map_of_mem hown))
  · rw [hcopy]
    exact ⟨iff_of_false (fun h => nomatch h) hrefused, fun h => absurd h hrefused,
      fun _ => ⟨rfl, e, rfl, hkind⟩⟩

end Overwriting

section Sample

/-- A model without columns: two biases, and a layer without inputs. -/
def biasModel : Model Float32 :=
  Model.blank ⟨[], [], [], [], [], 0, [], 0⟩

/-- Arrays for its parameters in another order, one of them of integers. -/
def biasArrays : Parameters Number :=
  [(.deepBias 0, ⟨[1], [.real 0.5], rfl⟩), (.wideBias, ⟨[1], [.int 2], rfl⟩),
    (.deepWeight 0, ⟨[1, 0], [], rfl⟩)]

/-- All arrays are copied, and without the first one none is. -/
theorem copy_whole_biases :
    (biasModel.copy (.arrays biasArrays)).result = .ok () ∧
    (∀ p ∈ (biasModel.copy (.arrays biasArrays)).model.parameters,
      (biasArrays.mapValues Number.toSingle).get? p.1 = some p.2) ∧
    (biasModel.copy (.arrays biasArrays.tail)).model = biasModel := by
  have hown : biasModel.parameters.names.Nodup := by decide
  have hsuits : Suits biasModel (.arrays biasArrays) :=
    ⟨(fits_iff_perm hown (by decide)).mpr (by decide), fun _ heq => nomatch heq⟩
  have hlacking : ¬Suits biasModel (.arrays biasArrays.tail) := fun h =>
    absurd ((fits_iff_perm hown (by decide)).mp h.weights) (by decide)
  obtain ⟨hresult, hcopied, -⟩ := copy_whole biasModel (.arrays biasArrays)
  obtain ⟨-, -, hkept⟩ := copy_whole biasModel (.arrays biasArrays.tail)
  exact ⟨hresult.mpr hsuits, (hcopied hsuits).2.2, (hkept hlacking).1⟩

end Sample

end WideDeep.Proofs
