import Mathlib.Tactic
import WideDeep.Proofs.MasterPhases
import WideDeep.Proofs.ReturningRounds
import WideDeep.Proofs.TrainingRuns

/-!
# Rounds that fail

A master refuses payloads that do not fit its model, and keeps all of its job but the phase. With payloads
that fit, a round raises in one case only: a factor in the step of some parameter is beyond the range of
the network's numbers.
-/

namespace WideDeep.Proofs

section Runs

variable {m : Master}

/-- The model of a master has at most one table for each column. -/
def HasTables (m : Master) : Prop :=
  ∀ job, m.state.job? = some job → DistinctTables job.model.layout

lemma hasTables_of_job {m' : Master} {job : Job Float32} (hjob : m'.state.job? = some job)
    (h : DistinctTables job.model.layout) : HasTables m' := by
  intro other hother
  rw [hjob] at hother
  cases hother
  exact h

/-- A round changes neither the tables nor the layers of a model. -/
lemma hasTables_round (h : HasTables m) (results : List (Payload Float)) :
    HasTables (m.round results).master := by
  cases hstate : m.state with
  | awaiting job source =>
    have hjob := h job (by rw [hstate]; rfl)
    cases hfirst : m.firstModel job.model source with
    | mk notices drawn =>
      cases drawn with
      | error e =>
        rw [round_of_firstModel_error hstate results hfirst]
        exact h
      | ok found =>
        rw [round_of_firstModel hstate results hfirst]
        -- A model that is recovered or drawn is the old one with other weights.
        refine hasTables_of_job rfl ?_
        rw [firstModel_layout hfirst]
        exact hjob
  | aggregating job i =>
    have hnext : DistinctTables (job.aggregate i results).job.model.layout := by
      rw [(aggregate_keeps job i results).1]
      exact h job (by rw [hstate]; rfl)
    cases hagg : job.aggregate i results with
    | mk next result =>
      rw [hagg] at hnext
      cases result with
      | ok totals =>
        rw [round_of_aggregate hstate hagg]
        exact hasTables_of_job rfl hnext
      | error e =>
        rw [round_of_aggregate_error hstate hagg]
        split <;> exact hasTables_of_job rfl hnext
  | uninitialized =>
    unfold Master.round
    rw [hstate]
    exact h
  | converged job i =>
    unfold Master.round
    rw [hstate]
    exact h
  | failed job i =>
    unfold Master.round
    rw [hstate]
    exact h

/-- Whatever is called, a model keeps to one table for each column. -/
theorem hasTables_perform (h : HasTables m) (c : Call) : HasTables (perform m c).after := by
  cases c with
  | init =>
    unfold perform
    cases hstart : m.start with
    | error e => exact h
    | ok next =>
      obtain ⟨-, layout, optimizer, source, hlayout, -, -, rfl⟩ := start_eq_ok hstart
      exact hasTables_of_job rfl (distinct_of_layout hlayout)
  | compute results => exact hasTables_round h results
  | halt =>
    unfold perform Master.halt
    cases hstate : m.state with
    | aggregating job i => exact hasTables_of_job rfl (h job (by rw [hstate]; rfl))
    | uninitialized => exact h
    | awaiting job source => exact h
    | converged job i => exact h
    | failed job i => exact h

lemma hasTables_run (h : HasTables m) (calls : List Call) : HasTables (run m calls) := by
  induction calls generalizing m with
  | nil => exact h
  | cons c rest ih => exact ih (hasTables_perform h c)

lemma hasTables_made (config : ModelConfig) (training : TrainingConfig)
    (initializer : Option Initializer) (tape : Tape) (checkpoint : Checkpoint) (calls : List Call) :
    HasTables (run (Master.make config training initializer tape checkpoint) calls) := by
  refine hasTables_run (fun job hjob => ?_) calls
  cases hjob

end Runs

section Rounds

variable {m : Master} {job : Job Float32} {i : Nat} {results : List (Payload Float)}

/-- The factors in the step of every parameter of a job are numbers of the network. -/
def CanMove (job : Job Float32) : Prop :=
  ∀ place < job.model.parameters.length, InReach job.optimizer (stepsTaken job.optimizer.moments place)

/-- A round that refuses its payloads fails the master, which keeps its job and the number of the
round. -/
lemma round_of_gradients_error (hstate : m.state = .aggregating job i) {e : Error}
    (hgradients : stepGradients job i results = .error e) (hkind : e.kind = .invalidValue) :
    m.round results = ⟨{ m with state := .failed job i }, [.roundFailed i], .error e⟩ := by
  have hvalue : e.isValue = true := by
    unfold Error.isValue
    rw [hkind]
  rw [round_of_aggregate_error hstate (aggregate_of_gradients_error hgradients), if_pos hvalue]

lemma round_of_move_error (hstate : m.state = .aggregating job i) {totals : Totals Float}
    {gradients : Parameters Float32} {e : Error}
    (hgradients : stepGradients job i results = .ok (totals, gradients))
    (hmove : (job.move gradients).2 = .error e) (hvalue : e.isValue = false) :
    m.round results =
      ⟨{ m with state := .aggregating (job.move gradients).1 i }, [], .error e⟩ := by
  have hagg := aggregate_of_gradients hgradients
  rw [hmove] at hagg
  rw [round_of_aggregate_error hstate hagg, hvalue]
  rfl

/-- What is called on a new master may be anything: whenever it aggregates, a round returns exactly if
it is given some payloads, their gradients have the names and shapes of the parameters, and the factors
of the step are numbers of the network. Other payloads are refused as a value, and they fail a master
that keeps its weights, what its optimizer remembers and the number of the round. If only a factor is
too large, the round raises for another reason and the master still aggregates; its weights are the same
unless Adam breaks off the step because its rate overshoots. -/
theorem round_atomic (config : ModelConfig) (training : TrainingConfig)
    (initializer : Option Initializer) (tape : Tape) (checkpoint : Checkpoint) (calls : List Call)
    (hstate : (run (Master.make config training initializer tape checkpoint) calls).state =
      .aggregating job i)
    (hnames : ∀ p ∈ results, p.gradients.names.Nodup) :
    let m := run (Master.make config training initializer tape checkpoint) calls
    ((∃ b, (m.round results).result = .ok b) ↔ Acceptable job.model results ∧ CanMove job) ∧
    (¬Acceptable job.model results → ∃ e, e.kind = .invalidValue ∧
      m.round results = ⟨{ m with state := .failed job i }, [.roundFailed i], .error e⟩) ∧
    (Acceptable job.model results → ¬CanMove job → ∃ totals gradients e,
      stepGradients job i results = .ok (totals, gradients) ∧ e.isValue = false ∧
      m.round results =
        ⟨{ m with state := .aggregating (job.move gradients).1 i }, [], .error e⟩ ∧
      ((job.move gradients).1.model = job.model ∨
        BreaksOff job.optimizer job.model.parameters gradients e ∧ Overshoots job.optimizer)) := by
  intro m
  have htables : DistinctTables job.model.layout :=
    hasTables_made config training initializer tape checkpoint calls job (by rw [hstate]; rfl)
  have hmodel := names_nodup htables
  change m.state = .aggregating job i at hstate
  have hcases := stepGradients_cases (i := i) hmodel hnames
  refine ⟨(round_ok_iff_aggregate hstate).trans (aggregate_ok_iff hmodel hnames i),
    fun hrefused => ?_, fun haccepted hstuck => ?_⟩
  · rcases hcases with ⟨haccepted, -⟩ | ⟨-, e, hgradients, hkind⟩
    · exact absurd haccepted hrefused
    · exact ⟨e, hkind, round_of_gradients_error hstate hgradients hkind⟩
  · rcases hcases with ⟨-, totals, gradients, hgradients⟩ | ⟨hrefused, -⟩
    · cases hmove : (job.move gradients).2 with
      | ok u => exact absurd (move_ok_iff.mp ⟨u, hmove⟩) hstuck
      | error e =>
        obtain ⟨hvalue, hkept⟩ := move_error htables hmove
        have hround := round_of_move_error hstate hgradients hmove hvalue
        exact ⟨totals, gradients, e, hgradients, hvalue, hround, hkept⟩
    · exact absurd haccepted hrefused

end Rounds

section Sample

/-- A master of a model of one column that moves by plain steps, behind its first round. -/
def steadyMaster : Master :=
  run (Master.make skyConfig
    ((TrainingConfig.initial.set .optimizer (.text "sgd")).set .learningRate (.int 1))
    (some (.range 0 1)) (Tape.linear 1 0) .noPath) [.init, .compute []]

def emptyPayload : Payload Float :=
  ⟨[], Totals.zero, 1⟩

/-- Whether a round brings other weights than those of its master. -/
def bringsOthers (m : Master) (results : List (Payload Float)) : Bool :=
  match (m.round results).result with
  | .ok b => some (b.weights.map (·.2.data)) ≠ numbers? m
  | .error _ => false

set_option maxRecDepth 10000 in
lemma steady_moves : bringsOthers steadyMaster [onesPayload] = true := by
  decide +kernel

/-- The steady master takes a payload of ones and moves its weights. With a payload without gradients
beside it, the master fails. -/
theorem round_atomic_steady : ∃ job b, steadyMaster.state = .aggregating job 1 ∧
    (steadyMaster.round [onesPayload]).result = .ok b ∧ b.weights ≠ job.model.parameters ∧
    ∃ e, e.kind = .invalidValue ∧ steadyMaster.round [onesPayload, emptyPayload] =
      ⟨{ steadyMaster with state := .failed job 1 }, [.roundFailed 1], .error e⟩ := by
  obtain ⟨job, hjob, hoptimizer, hlayout⟩ : ∃ job, steadyMaster.state = .aggregating job 1 ∧
    job.optimizer = ⟨.sgd, .int 1, 0, []⟩ ∧ job.model.layout.shapes = skyShapes :=
      ⟨_, rfl, rfl, rfl⟩
  have hshapes : job.model.parameters.shapes = skyShapes := job.model.parameters_fit.trans hlayout
  have hmodel : job.model.parameters.names.Nodup :=
    names_nodup (hasTables_made _ _ _ _ _ [.init, .compute []] job (congrArg MasterState.job? hjob))
  have hones : onesPayload.gradients.shapes = job.model.parameters.shapes := by
    rw [hshapes]
    rfl
  have hnodup : onesPayload.gradients.names.Nodup := by rwa [names_congr hones]
  have hmoves : CanMove job := by
    unfold CanMove
    rw [hoptimizer]
    exact fun _ _ => ⟨Or.inl (by decide +kernel), Binary.doubleOfInt 1, rfl, by decide +kernel⟩
  have haccepted : Acceptable job.model [onesPayload] :=
    acceptable_of_shapes hmodel (List.cons_ne_nil _ _) (List.forall_mem_singleton.mpr hones)
  have hrefused : ¬Acceptable job.model [onesPayload, emptyPayload] := by
    intro h
    have hfits : Fits job.model.parameters emptyPayload.gradients := h.fits _ (by simp)
    cases hparameters : job.model.parameters with
    | nil =>
      rw [hparameters] at hshapes
      cases hshapes
    | cons p rest =>
      obtain ⟨t, ht, -⟩ := hfits.found p (hparameters ▸ List.mem_cons_self)
      cases ht
  obtain ⟨hreturns, -⟩ := round_atomic _ _ _ _ _ _ hjob (List.forall_mem_singleton.mpr hnodup)
  have hnames : ∀ p ∈ [onesPayload, emptyPayload], p.gradients.names.Nodup :=
    List.forall_mem_cons.mpr ⟨hnodup, List.forall_mem_singleton.mpr List.nodup_nil⟩
  obtain ⟨-, hfails, -⟩ := round_atomic _ _ _ _ _ _ hjob hnames
  obtain ⟨b, hb⟩ := hreturns.mpr ⟨haccepted, hmoves⟩
  have hb' : (steadyMaster.round [onesPayload]).result = .ok b := hb
  refine ⟨job, b, hjob, hb, fun hsame => ?_, hfails hrefused⟩
  have hmoved := steady_moves
  unfold bringsOthers at hmoved
  rw [hb'] at hmoved
  refine of_decide_eq_true hmoved ?_
  unfold numbers? weights? Master.model?
  rw [hjob, hsame]
  rfl

end Sample

end WideDeep.Proofs
