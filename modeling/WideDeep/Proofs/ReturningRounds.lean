import Mathlib.Tactic
import WideDeep.Proofs.MasterSteps
import WideDeep.Proofs.OptimizerSteps
import WideDeep.Proofs.PayloadSums

/-!
# Rounds that return

Payloads whose gradients have the names and shapes of a layout can be combined, whatever their numbers
are, and the round that takes them returns exactly if the decay and the rate of each parameter are
within the range of the network's numbers.
-/

namespace WideDeep.Proofs

section Factors

variable {α : Type} [Scalar α] {o : Optimizer α}

/-- The rate by which a parameter moves behind so many steps. -/
def stepRate (o : Optimizer α) (steps : Nat) : Except Error Float :=
  match o.rule with
  | .sgd => Optimizer.plainRate o.rate
  | .adam => o.rate.toReal.map fun x =>
      x / (1 - Float.pow Optimizer.keptMean (Binary.doubleOfInt (steps + 1 : Nat)))
  | .adagrad => o.rate.toReal

/-- The factors in the step of a parameter are numbers of the network. -/
structure InReach (o : Optimizer α) (steps : Nat) : Prop where
  decay : (o.decay == 0) = true ∨ Scalar.holds α o.decay = true
  rate : ∃ x, stepRate o steps = .ok x ∧ Scalar.holds α x = true

lemma factor_ok_iff {x : Float} :
    (∃ c, (Optimizer.factor x : Except Error α) = .ok c) ↔ Scalar.holds α x = true := by
  constructor
  · rintro ⟨c, hc⟩
    unfold Optimizer.factor at hc
    split at hc
    · assumption
    · cases hc
  · exact fun h => ⟨_, factor_eq_ok h⟩

/-- What is computed with a factor succeeds if the factor can be had. -/
lemma bind_factor_ok_iff {β : Type} {r : Except Error Float} (f : Float → Float) {k : α → β} :
    (∃ y, (r >>= fun x => Optimizer.factor (f x) >>= fun c => Except.ok (k c)) = .ok y) ↔
      ∃ x, r = .ok x ∧ Scalar.holds α (f x) = true := by
  constructor
  · rintro ⟨y, hy⟩
    obtain ⟨x, hx, hrest⟩ := bind_eq_ok.mp hy
    obtain ⟨c, hc, -⟩ := bind_eq_ok.mp hrest
    exact ⟨x, hx, factor_ok_iff.mp ⟨c, hc⟩⟩
  · rintro ⟨x, rfl, hholds⟩
    exact ⟨_, by rw [ok_bind, factor_eq_ok hholds, ok_bind]⟩

lemma regularized_ok_iff {decay : Float} {w g : Tensor α} :
    (∃ x, Optimizer.regularized decay w g = .ok x) ↔
      (decay == 0) = true ∨ Scalar.holds α decay = true := by
  unfold Optimizer.regularized
  by_cases hzero : (decay == 0) = true
  · rw [if_pos hzero]
    exact ⟨fun _ => Or.inl hzero, fun _ => ⟨g, rfl⟩⟩
  · rw [if_neg hzero, map_ok_iff, factor_ok_iff]
    simp [hzero]

lemma change_ok_iff {m : Moments α} {g g' : Tensor α} :
    (∃ x, Optimizer.change o.rule o.rate (Optimizer.remember o.rule m g) g' = .ok x) ↔
      ∃ x, stepRate o m.steps = .ok x ∧ Scalar.holds α x = true := by
  unfold stepRate Optimizer.change
  cases o.rule with
  | sgd => exact bind_factor_ok_iff fun x => x
  | adagrad => exact bind_factor_ok_iff fun x => x
  | adam =>
    refine (bind_factor_ok_iff fun x =>
      x / (1 - Float.pow Optimizer.keptMean (Binary.doubleOfInt (m.steps + 1 : Nat)))).trans ?_
    simp [map_eq_ok]

/-- The step of a parameter succeeds exactly if its factors are numbers of the network. -/
theorem stepOne_ok_iff {m : Moments α} {w g : Tensor α} :
    (∃ x, (o.stepOne m w g).2 = .ok x) ↔ InReach o m.steps := by
  unfold Optimizer.stepOne
  cases hregularized : Optimizer.regularized o.decay w g with
  | error e =>
    refine ⟨fun ⟨_, h⟩ => (nomatch h), fun h => ?_⟩
    obtain ⟨x, hx⟩ := regularized_ok_iff.mpr h.decay
    cases hregularized.symm.trans hx
  | ok x =>
    have hdecay := regularized_ok_iff.mp ⟨x, hregularized⟩
    dsimp only
    rw [map_ok_iff, change_ok_iff]
    exact ⟨fun h => ⟨hdecay, h⟩, fun h => h.rate⟩

end Factors

section Steps

variable {α : Type} [Scalar α] {o : Optimizer α} {gradients weights : Parameters α}

/-- How many steps the parameter at a place has taken. -/
def stepsTaken (moments : List (Moments α)) (place : Nat) : Nat :=
  (moments[place]?.map (·.steps)).getD 0

omit [Scalar α] in
lemma stepsTaken_tail (moments : List (Moments α)) (place : Nat) :
    stepsTaken moments.tail place = stepsTaken moments (place + 1) := by
  unfold stepsTaken
  rw [List.getElem?_tail]

lemma steps_head (moments : List (Moments α)) (shape : List Nat) :
    (moments.head?.getD (.initial shape)).steps = stepsTaken moments 0 := by
  cases moments <;> rfl

/-- A step moves all parameters exactly if the factors of each of them are numbers of the network. -/
theorem stepAll_failure_eq_none (gradients : Parameters α) {moments : List (Moments α)} :
    (o.stepAll gradients moments weights).failure = none ↔
      ∀ place < weights.length, InReach o (stepsTaken moments place) := by
  induction weights generalizing moments with
  | nil => simp [Optimizer.stepAll]
  | cons p rest ih =>
    obtain ⟨name, w⟩ := p
    have hfirst := stepOne_ok_iff (o := o) (m := moments.head?.getD (.initial w.shape)) (w := w)
      (g := gradients.tensor name)
    rw [steps_head] at hfirst
    rw [List.length_cons, Nat.forall_lt_succ_left, ← hfirst]
    unfold Optimizer.stepAll
    dsimp only
    cases o.stepOne (moments.head?.getD (.initial w.shape)) w (gradients.tensor name) with
    | mk m r =>
      cases r with
      | error e => simp
      | ok w' => simp [ih, stepsTaken_tail]

lemma move_ok_iff {j : Job α} :
    (∃ u, (j.move gradients).2 = .ok u) ↔ ∀ place < j.model.parameters.length,
      InReach j.optimizer (stepsTaken j.optimizer.moments place) := by
  rw [← stepAll_failure_eq_none gradients]
  unfold Job.move Optimizer.step
  dsimp only
  cases (j.optimizer.stepAll gradients j.optimizer.moments j.model.parameters).failure with
  | none => simp
  | some e => simp

end Steps

section Payloads

variable {α δ : Type} [Scalar α] [Scalar δ] [Precision α δ]

omit [Scalar α] [Precision α δ] in
/-- Payloads are combined into one of the shapes of the first, or they are refused because some of them
do not have the names and shapes of the first. -/
theorem combineAll_cases {first : Payload δ} {rest : List (Payload δ)}
    (hfirst : first.gradients.names.Nodup) (hrest : ∀ q ∈ rest, q.gradients.names.Nodup) :
    ((∀ q ∈ rest, first.gradients.shapes.Perm q.gradients.shapes) ∧
        ∃ p, Payload.combineAll first rest = .ok p ∧ p.gradients.shapes = first.gradients.shapes) ∨
      ¬(∀ q ∈ rest, first.gradients.shapes.Perm q.gradients.shapes) ∧
        ∃ e, Payload.combineAll first rest = .error e ∧ e.kind = .invalidValue := by
  unfold Payload.combineAll
  induction rest generalizing first with
  | nil => exact Or.inl ⟨by simp, first, rfl, rfl⟩
  | cons q rest ih =>
    obtain ⟨hq, hlater⟩ := List.forall_mem_cons.mp hrest
    rw [List.foldlM_cons, List.forall_mem_cons]
    by_cases hperm : first.gradients.shapes.Perm q.gradients.shapes
    · -- The sum has the shapes of the first payload, so the others are held against the same shapes.
      have hshapes : (joined first q).gradients.shapes = first.gradients.shapes :=
        Parameters.shapes_combine _ _ _
      have hjoined : (joined first q).gradients.names.Nodup := by rwa [names_congr hshapes]
      have hsum := ih hjoined hlater
      rw [(combine_eq_ok hfirst hq).mpr ⟨hperm, rfl⟩, ok_bind]
      rw [hshapes] at hsum
      rcases hsum with ⟨hall, hok⟩ | ⟨hnone, herror⟩
      · exact Or.inl ⟨⟨hperm, hall⟩, hok⟩
      · exact Or.inr ⟨fun h => hnone h.2, herror⟩
    · refine Or.inr ⟨fun h => hperm h.1, ?_⟩
      cases hcombine : first.combine q with
      | error e => exact ⟨e, rfl, combine_error hcombine⟩
      | ok p => exact absurd ((combine_eq_ok hfirst hq).mp hcombine).1 hperm

/-- Payloads that a round takes: there are some, and the gradients of each have exactly the names and
shapes of the parameters. -/
structure Acceptable (model : Model α) (results : List (Payload δ)) : Prop where
  some : results ≠ []
  fits : ∀ p ∈ results, Fits model.parameters p.gradients

variable {job : Job α} {model : Model α} {i : Nat} {results : List (Payload δ)}

omit [Scalar α] [Scalar δ] [Precision α δ] in
lemma acceptable_of_shapes (hmodel : model.parameters.names.Nodup) (hne : results ≠ [])
    (hshapes : ∀ p ∈ results, p.gradients.shapes = model.parameters.shapes) :
    Acceptable model results := by
  refine ⟨hne, fun p hp => ?_⟩
  have hnames : p.gradients.names.Nodup := by rwa [names_congr (hshapes p hp)]
  exact (fits_iff_perm hmodel hnames).mpr (List.Perm.of_eq (hshapes p hp))

lemma meanGradients_ok_iff {alone : Bool} {p : Payload δ} :
    (∃ gradients : Parameters α, Job.meanGradients model.layout.shapes alone p = .ok gradients) ↔
      Fits model.parameters p.gradients := by
  rw [fits_iff, model.parameters_fit]
  constructor
  · rintro ⟨gradients, h⟩
    obtain ⟨hnames, hshapes, -⟩ := meanGradients_eq_ok.mp h
    rw [names_layout] at hnames
    exact ⟨hnames, hshapes⟩
  · rintro ⟨hnames, hshapes⟩
    rw [← names_layout] at hnames
    exact ⟨_, meanGradients_eq_ok.mpr ⟨hnames, hshapes, rfl⟩⟩

omit [Scalar α] [Scalar δ] [Precision α δ] in
/-- Acceptable payloads are those that agree with the first one, which fits. -/
lemma acceptable_cons (hmodel : model.parameters.names.Nodup) {first : Payload δ}
    {rest : List (Payload δ)} (hnames : ∀ p ∈ first :: rest, p.gradients.names.Nodup) :
    Acceptable model (first :: rest) ↔ Fits model.parameters first.gradients ∧
      ∀ q ∈ rest, first.gradients.shapes.Perm q.gradients.shapes := by
  obtain ⟨hfirst, hrest⟩ := List.forall_mem_cons.mp hnames
  have hfits : ∀ {p : Payload δ}, p.gradients.names.Nodup →
      (Fits model.parameters p.gradients ↔ p.gradients.shapes.Perm model.parameters.shapes) :=
    fun hp => fits_iff_perm hmodel hp
  constructor
  · rintro ⟨-, hall⟩
    obtain ⟨hhead, htail⟩ := List.forall_mem_cons.mp hall
    refine ⟨hhead, fun q hq => ?_⟩
    exact ((hfits hfirst).mp hhead).trans ((hfits (hrest q hq)).mp (htail q hq)).symm
  · rintro ⟨hhead, htail⟩
    refine ⟨List.cons_ne_nil _ _, List.forall_mem_cons.mpr ⟨hhead, fun q hq => ?_⟩⟩
    exact (hfits (hrest q hq)).mpr ((htail q hq).symm.trans ((hfits hfirst).mp hhead))

/-- Payloads have mean gradients exactly if a round takes them. -/
theorem stepGradients_cases (hmodel : job.model.parameters.names.Nodup)
    (hnames : ∀ p ∈ results, p.gradients.names.Nodup) :
    (Acceptable job.model results ∧
        ∃ totals gradients, stepGradients job i results = .ok (totals, gradients)) ∨
      ¬Acceptable job.model results ∧
        ∃ e, stepGradients job i results = .error e ∧ e.kind = .invalidValue := by
  cases results with
  | nil => exact Or.inr ⟨fun h => h.some rfl, _, rfl, rfl⟩
  | cons first rest =>
    obtain ⟨hfirst, hrest⟩ := List.forall_mem_cons.mp hnames
    unfold stepGradients Job.combined
    rw [acceptable_cons hmodel hnames]
    dsimp only
    rcases combineAll_cases hfirst hrest with ⟨hperm, p, hp, hshapes⟩ | ⟨hother, e, he, hkind⟩
    · -- What is combined has the shapes of the first payload and fits the model exactly if that does.
      have hsame : Fits job.model.parameters p.gradients ↔ Fits job.model.parameters first.gradients := by
        have hp : p.gradients.names.Nodup := by rwa [names_congr hshapes]
        rw [fits_iff_perm hmodel hp, fits_iff_perm hmodel hfirst, hshapes]
      rw [hp, ok_bind]
      cases hmean : (Job.meanGradients job.model.layout.shapes ((first :: rest).length == 1) p :
          Except Error (Parameters α)) with
      | ok gradients =>
        exact Or.inl ⟨⟨hsame.mp (meanGradients_ok_iff.mp ⟨gradients, hmean⟩), hperm⟩, _, _, rfl⟩
      | error e =>
        refine Or.inr ⟨fun h => ?_, e, rfl, meanGradients_error hmean⟩
        obtain ⟨gradients, hok⟩ := meanGradients_ok_iff.mpr (hsame.mpr h.1)
        cases hmean.symm.trans hok
    · rw [he]
      exact Or.inr ⟨fun h => hother h.2, e, rfl, hkind⟩

/-- A round returns exactly if it takes its payloads and the factors of the step are numbers of the
network. -/
theorem aggregate_ok_iff (hmodel : job.model.parameters.names.Nodup)
    (hnames : ∀ p ∈ results, p.gradients.names.Nodup) (i : Nat) :
    (∃ totals, (job.aggregate i results).result = .ok totals) ↔ Acceptable job.model results ∧
      ∀ place < job.model.parameters.length,
        InReach job.optimizer (stepsTaken job.optimizer.moments place) := by
  rcases stepGradients_cases (i := i) hmodel hnames with
    ⟨haccepted, totals, gradients, hgradients⟩ | ⟨hrefused, e, hgradients, -⟩
  · rw [aggregate_of_gradients hgradients, map_ok_iff, move_ok_iff, and_iff_right haccepted]
  · rw [aggregate_of_gradients_error hgradients]
    exact iff_of_false (fun ⟨_, h⟩ => nomatch h) fun h => hrefused h.1

end Payloads

section Rounds

variable {m : Master} {job : Job Float32} {i : Nat} {results : List (Payload Float)}

lemma round_ok_iff_aggregate (hstate : m.state = .aggregating job i) :
    (∃ b, (m.round results).result = .ok b) ↔
      ∃ totals, (job.aggregate i results).result = .ok totals := by
  cases hagg : job.aggregate i results with
  | mk next result =>
    cases result with
    | ok totals =>
      rw [round_of_aggregate hstate hagg]
      exact ⟨fun _ => ⟨totals, rfl⟩, fun _ => ⟨_, rfl⟩⟩
    | error e =>
      rw [round_of_aggregate_error hstate hagg]
      refine ⟨fun ⟨b, hb⟩ => ?_, fun ⟨_, h⟩ => (nomatch h)⟩
      split at hb <;> cases hb

/-- A master whose workers send gradients of the names and shapes of its layout: its round returns
exactly if the factors of the step are numbers of the network. -/
theorem round_ok_iff (hstate : m.state = .aggregating job i) (htables : DistinctTables job.model.layout)
    (hne : results ≠ [])
    (hresults : ∀ p ∈ results, p.gradients.shapes = job.model.layout.shapes) :
    (∃ b, (m.round results).result = .ok b) ↔ ∀ place < job.model.parameters.length,
      InReach job.optimizer (stepsTaken job.optimizer.moments place) := by
  have hmodel := names_nodup htables
  rw [← job.model.parameters_fit] at hresults
  have hnames : ∀ p ∈ results, p.gradients.names.Nodup := fun p hp => by
    rwa [names_congr (hresults p hp)]
  rw [round_ok_iff_aggregate hstate, aggregate_ok_iff hmodel hnames,
    and_iff_right (acceptable_of_shapes hmodel hne hresults)]

end Rounds

end WideDeep.Proofs
