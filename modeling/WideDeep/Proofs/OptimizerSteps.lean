import Mathlib.Tactic
import WideDeep.Aggregation
import WideDeep.Proofs.ParameterSets
import WideDeep.Proofs.Results

/-!
# Steps that fail

A step that fails has moved the parameters before the one at which it failed. Only Adam, whose rate
depends on the number of steps that a parameter has taken, can fail behind the first parameter.
-/

namespace WideDeep.Proofs

variable {α : Type} [Scalar α] {o : Optimizer α} {weights gradients : Parameters α} {e : Error}

/-- The rate of Adam divided by what it has to make up for is, at some number of steps, out of the
range of the network's numbers. -/
def Overshoots (o : Optimizer α) : Prop :=
  o.rule = .adam ∧ ∃ x, o.rate.toReal = .ok x ∧ ∃ n : Nat, 0 < n ∧
    Scalar.holds α (x / (1 - Float.pow Optimizer.keptMean (Binary.doubleOfInt n))) = false

/-- A step that has moved some parameters and fails at the next one. -/
def BreaksOff (o : Optimizer α) (weights gradients : Parameters α) (e : Error) : Prop :=
  (o.step weights gradients).failure = some e ∧ ∃ k, 0 < k ∧ k < weights.length ∧
    (o.step (weights.take k) gradients).failure = none ∧
    (o.step weights gradients).weights =
      (o.step (weights.take k) gradients).weights ++ weights.drop k

section Factors

lemma factor_eq_ok {x : Float} (h : Scalar.holds α x = true) :
    (Optimizer.factor x : Except Error α) = .ok (Scalar.ofDouble x) := by
  unfold Optimizer.factor
  rw [if_pos h]

/-- Whether regularization fails is the same for all parameters. -/
lemma regularized_uniform (decay : Float) :
    (∀ w g : Tensor α, ∃ x, Optimizer.regularized decay w g = .ok x) ∨
      ∀ w g : Tensor α, ∃ e, Optimizer.regularized decay w g = .error e := by
  unfold Optimizer.regularized
  by_cases hzero : (decay == 0) = true
  · left
    intro w g
    exact ⟨g, by rw [if_pos hzero]⟩
  · simp only [if_neg hzero]
    cases (Optimizer.factor decay : Except Error α) with
    | error e => exact Or.inr fun w g => ⟨e, rfl⟩
    | ok c => exact Or.inl fun w g => ⟨_, rfl⟩

/-- Unless the rate overshoots, it is the same for all parameters whether a change fails. -/
lemma change_uniform (h : ¬Overshoots o) :
    (∀ (m : Moments α) (g : Tensor α), ∃ x,
        Optimizer.change o.rule o.rate (Optimizer.remember o.rule m g) g = .ok x) ∨
      ∀ (m : Moments α) (g : Tensor α), ∃ e,
        Optimizer.change o.rule o.rate (Optimizer.remember o.rule m g) g = .error e := by
  cases hrule : o.rule with
  | sgd =>
    unfold Optimizer.change
    cases Optimizer.plainRate o.rate with
    | error e => exact Or.inr fun m g => ⟨e, rfl⟩
    | ok x =>
      cases hfactor : (Optimizer.factor x : Except Error α) with
      | error e => exact Or.inr fun m g => ⟨e, by simp only [ok_bind, hfactor]; rfl⟩
      | ok r => exact Or.inl fun m g => ⟨_, by simp only [ok_bind, hfactor]; rfl⟩
  | adagrad =>
    unfold Optimizer.change
    cases o.rate.toReal with
    | error e => exact Or.inr fun m g => ⟨e, rfl⟩
    | ok x =>
      cases hfactor : (Optimizer.factor x : Except Error α) with
      | error e => exact Or.inr fun m g => ⟨e, by simp only [ok_bind, hfactor]; rfl⟩
      | ok r => exact Or.inl fun m g => ⟨_, by simp only [ok_bind, hfactor]; rfl⟩
  | adam =>
    unfold Optimizer.change Optimizer.remember
    cases hrate : o.rate.toReal with
    | error e => exact Or.inr fun m g => ⟨e, rfl⟩
    | ok x =>
      left
      intro m g
      have hholds : Scalar.holds α
          (x / (1 - Float.pow Optimizer.keptMean (Binary.doubleOfInt (m.steps + 1 : Nat)))) = true := by
        by_contra hlost
        exact h ⟨hrule, x, hrate, m.steps + 1, Nat.succ_pos _, by simpa using hlost⟩
      exact ⟨_, by simp only [ok_bind, factor_eq_ok hholds]; rfl⟩

/-- Unless the rate overshoots, it is the same for all parameters whether a step fails. -/
theorem stepOne_fails_for_all (h : ¬Overshoots o) {m : Moments α} {w g : Tensor α}
    (hfail : (o.stepOne m w g).2 = .error e) (m' : Moments α) (w' g' : Tensor α) :
    ∃ e', (o.stepOne m' w' g').2 = .error e' := by
  unfold Optimizer.stepOne at hfail ⊢
  rcases regularized_uniform (α := α) o.decay with hok | herror
  · obtain ⟨x, hx⟩ := hok w g
    obtain ⟨x', hx'⟩ := hok w' g'
    rw [hx] at hfail
    rw [hx']
    dsimp only at hfail ⊢
    rcases change_uniform h with hchange | hchange
    · obtain ⟨y, hy⟩ := hchange m x
      rw [hy] at hfail
      cases hfail
    · obtain ⟨e', he'⟩ := hchange m' x'
      exact ⟨e', by rw [he']; rfl⟩
  · obtain ⟨e', he'⟩ := herror w' g'
    exact ⟨e', by rw [he']⟩

end Factors

section Sequences

/-- A step that fails has moved the parameters before the one at which it fails, and no other. -/
theorem stepAll_failure {moments : List (Moments α)}
    (h : (o.stepAll gradients moments weights).failure = some e) :
    ∃ k, k < weights.length ∧ (o.stepAll gradients moments (weights.take k)).failure = none ∧
      (o.stepAll gradients moments weights).weights =
        (o.stepAll gradients moments (weights.take k)).weights ++ weights.drop k := by
  induction weights generalizing moments with
  | nil => cases h
  | cons p rest ih =>
    obtain ⟨name, w⟩ := p
    cases hone : o.stepOne (moments.head?.getD (.initial w.shape)) w (gradients.tensor name) with
    | mk m r =>
      cases r with
      | error e' =>
        refine ⟨0, by simp, rfl, ?_⟩
        unfold Optimizer.stepAll
        simp only [hone]
        rfl
      | ok w' =>
        have hstep : ∀ ps, o.stepAll gradients moments ((name, w) :: ps) =
            ⟨(name, w') :: (o.stepAll gradients moments.tail ps).weights,
              m :: (o.stepAll gradients moments.tail ps).moments,
              (o.stepAll gradients moments.tail ps).failure⟩ := by
          intro ps
          rw [Optimizer.stepAll]
          simp only [hone]
        rw [hstep] at h
        obtain ⟨k, hk, hdone, hweights⟩ := ih h
        refine ⟨k + 1, by simpa using hk, ?_, ?_⟩
        · rw [List.take_succ_cons, hstep]
          exact hdone
        · rw [List.take_succ_cons, hstep, hstep, List.drop_succ_cons, List.cons_append]
          exact congrArg ((name, w') :: ·) hweights

lemma exists_failing {moments : List (Moments α)}
    (h : (o.stepAll gradients moments weights).failure = some e) :
    ∃ m w g e', (o.stepOne m w g).2 = .error e' := by
  induction weights generalizing moments with
  | nil => cases h
  | cons p rest ih =>
    obtain ⟨name, w⟩ := p
    unfold Optimizer.stepAll at h
    cases hone : o.stepOne (moments.head?.getD (.initial w.shape)) w (gradients.tensor name) with
    | mk m r =>
      cases r with
      | error e' => exact ⟨_, _, _, e', by rw [hone]⟩
      | ok w' =>
        simp only [hone] at h
        exact ih h

/-- A step that fails leaves all weights as they were, unless Adam breaks it off because its rate
overshoots. -/
theorem step_failure (h : (o.step weights gradients).failure = some e) :
    (o.step weights gradients).weights = weights ∨
      BreaksOff o weights gradients e ∧ Overshoots o := by
  obtain ⟨k, hk, hdone, hweights⟩ := stepAll_failure h
  by_cases hzero : k = 0
  · left
    subst hzero
    exact hweights
  · right
    have hpos : 0 < k := Nat.pos_of_ne_zero hzero
    refine ⟨⟨h, k, hpos, hk, hdone, hweights⟩, ?_⟩
    by_contra hsteady
    obtain ⟨m, w, g, e', hfail⟩ := exists_failing h
    obtain ⟨n, rfl⟩ : ∃ n, k = n + 1 := ⟨k - 1, by omega⟩
    cases weights with
    | nil => simp at hk
    | cons p rest =>
      obtain ⟨name, w'⟩ := p
      obtain ⟨e'', hfirst⟩ := stepOne_fails_for_all hsteady hfail
        (o.moments.head?.getD (.initial w'.shape)) w' (gradients.tensor name)
      rw [List.take_succ_cons] at hdone
      unfold Optimizer.stepAll at hdone
      cases hone : o.stepOne (o.moments.head?.getD (.initial w'.shape)) w' (gradients.tensor name) with
      | mk m' r =>
        rw [hone] at hfirst
        dsimp only at hfirst
        subst hfirst
        simp only [hone] at hdone
        cases hdone

end Sequences

section Errors

lemma factor_error {x : Float} (h : (Optimizer.factor x : Except Error α) = .error e) :
    e.isValue = false := by
  unfold Optimizer.factor at h
  split at h
  · cases h
  · rw [← Except.error.inj h]
    rfl

lemma toReal_error {n : Number} (h : n.toReal = .error e) : e.isValue = false := by
  cases n with
  | real x => cases h
  | int n =>
    unfold Number.toReal Raw.doubleOfInt? at h
    dsimp only at h
    split at h
    · cases h
    · rw [← Except.error.inj h]
      rfl

lemma plainRate_error {n : Number} (h : Optimizer.plainRate n = .error e) : e.isValue = false := by
  cases n with
  | real x => cases h
  | int n =>
    unfold Optimizer.plainRate at h
    dsimp only at h
    split at h
    · cases h
    · rw [← Except.error.inj h]
      rfl

lemma change_error {rule : OptimizerRule} {rate : Number} {m : Moments α} {g : Tensor α}
    (h : Optimizer.change rule rate m g = .error e) : e.isValue = false := by
  unfold Optimizer.change at h
  cases rule with
  | sgd =>
    rcases bind_eq_error.mp h with hrate | ⟨x, -, hrest⟩
    · exact plainRate_error hrate
    · rcases bind_eq_error.mp hrest with hfactor | ⟨r, -, hdone⟩
      · exact factor_error hfactor
      · cases hdone
  | adam =>
    rcases bind_eq_error.mp h with hrate | ⟨x, -, hrest⟩
    · exact toReal_error hrate
    · rcases bind_eq_error.mp hrest with hfactor | ⟨r, -, hdone⟩
      · exact factor_error hfactor
      · cases hdone
  | adagrad =>
    rcases bind_eq_error.mp h with hrate | ⟨x, -, hrest⟩
    · exact toReal_error hrate
    · rcases bind_eq_error.mp hrest with hfactor | ⟨r, -, hdone⟩
      · exact factor_error hfactor
      · cases hdone

lemma stepOne_error {m : Moments α} {w g : Tensor α} (h : (o.stepOne m w g).2 = .error e) :
    e.isValue = false := by
  unfold Optimizer.stepOne at h
  cases hreg : Optimizer.regularized o.decay w g with
  | error e' =>
    rw [hreg] at h
    dsimp only at h
    cases h
    unfold Optimizer.regularized at hreg
    split at hreg
    · cases hreg
    · exact factor_error (map_eq_error.mp hreg)
  | ok x =>
    rw [hreg] at h
    exact change_error (map_eq_error.mp h)

/-- No step fails for a value of the workers. -/
theorem step_error_isValue {moments : List (Moments α)}
    (h : (o.stepAll gradients moments weights).failure = some e) : e.isValue = false := by
  induction weights generalizing moments with
  | nil => cases h
  | cons p rest ih =>
    obtain ⟨name, w⟩ := p
    unfold Optimizer.stepAll at h
    cases hone : o.stepOne (moments.head?.getD (.initial w.shape)) w (gradients.tensor name) with
    | mk m r =>
      cases r with
      | error e' =>
        simp only [hone] at h
        have hfail := stepOne_error (o := o) (congrArg Prod.snd hone)
        rwa [← Option.some.inj h]
      | ok w' =>
        simp only [hone] at h
        exact ih h

end Errors

section Rounds

variable {δ : Type} [Scalar δ] [Precision α δ] {job next : Job α} {i : Nat}
  {results : List (Payload δ)} {totals : Totals δ}

/-- The totals of a round and the mean gradients by which the weights are to move. -/
def stepGradients (job : Job α) (i : Nat) (results : List (Payload δ)) :
    Except Error (Totals δ × Parameters α) := do
  let p ← Job.combined i results
  return (p.totals, ← Job.meanGradients job.model.layout.shapes (results.length == 1) p)

lemma aggregate_of_gradients_error (h : stepGradients job i results = .error e) :
    job.aggregate i results = ⟨job, .error e⟩ := by
  unfold Job.aggregate
  unfold stepGradients at h
  simp only [h]

lemma aggregate_of_gradients (h : stepGradients job i results = .ok (totals, gradients)) :
    job.aggregate i results =
      ⟨(job.move gradients).1, (job.move gradients).2.map fun _ => totals⟩ := by
  unfold Job.aggregate
  unfold stepGradients at h
  simp only [h]

omit [Scalar δ] [Precision α δ] in
/-- A move that fails leaves the model as it was, unless Adam breaks it off because its rate
overshoots. It does not fail for a value of the workers. -/
theorem move_error (htables : DistinctTables job.model.layout)
    (h : (job.move gradients).2 = .error e) :
    e.isValue = false ∧ ((job.move gradients).1.model = job.model ∨
      BreaksOff job.optimizer job.model.parameters gradients e ∧ Overshoots job.optimizer) := by
  have hfailure : (job.optimizer.step job.model.parameters gradients).failure = some e := by
    unfold Job.move at h
    dsimp only at h
    split at h
    · rename_i e' he'
      rw [he', Except.error.inj h]
    · cases h
  refine ⟨step_error_isValue hfailure, ?_⟩
  rcases step_failure hfailure with hsame | hbreaks
  · left
    unfold Job.move
    dsimp only
    rw [hsame]
    exact ofParameters_self htables
  · exact Or.inr hbreaks

/-- What a round that fails leaves of a job. -/
theorem aggregate_error (htables : DistinctTables job.model.layout)
    (h : job.aggregate i results = ⟨next, .error e⟩) :
    next.model = job.model ∨ e.isValue = false ∧ ∃ totals gradients,
      stepGradients job i results = .ok (totals, gradients) ∧ next = (job.move gradients).1 ∧
        BreaksOff job.optimizer job.model.parameters gradients e ∧ Overshoots job.optimizer := by
  cases hgradients : stepGradients job i results with
  | error e' =>
    rw [aggregate_of_gradients_error hgradients] at h
    cases h
    exact Or.inl rfl
  | ok p =>
    obtain ⟨totals, gradients⟩ := p
    rw [aggregate_of_gradients hgradients] at h
    obtain ⟨hnext, hresult⟩ := JobOutcome.mk.inj h
    obtain ⟨hvalue, hmodel⟩ := move_error htables (map_eq_error.mp hresult)
    rcases hmodel with hsame | ⟨hbreaks, hovershoots⟩
    · exact Or.inl (hnext ▸ hsame)
    · exact Or.inr ⟨hvalue, totals, gradients, rfl, hnext.symm, hbreaks, hovershoots⟩

/-- A round keeps the layout of a job and the rule and rate of its optimizer. -/
lemma aggregate_keeps (job : Job α) (i : Nat) (results : List (Payload δ)) :
    (job.aggregate i results).job.model.layout = job.model.layout ∧
      (job.aggregate i results).job.optimizer.rule = job.optimizer.rule ∧
        (job.aggregate i results).job.optimizer.rate = job.optimizer.rate := by
  cases hgradients : stepGradients job i results with
  | error e =>
    rw [aggregate_of_gradients_error hgradients]
    exact ⟨rfl, rfl, rfl⟩
  | ok p =>
    obtain ⟨totals, gradients⟩ := p
    rw [aggregate_of_gradients hgradients]
    exact ⟨rfl, rfl, rfl⟩

end Rounds

end WideDeep.Proofs
