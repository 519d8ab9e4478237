import Mathlib.Tactic
import WideDeep.Proofs.ConfiguredColumns
import WideDeep.Proofs.MasterSteps
import WideDeep.Proofs.OptimizerSteps

/-!
# Runs of a master

Whatever is called on a master and in whatever order, its phases follow each other as they should,
it counts the rounds that return, and each of these broadcasts the weights in force. The weights move
in no other call, except that Adam may break off a step because its rate overshoots.
-/

namespace WideDeep.Proofs

/-- What is called on a master. -/
inductive Call where
  | init
  | compute (results : List (Payload Float))
  | halt

/-- A call with the master before and behind it, and with what it returned: a broadcast if it was a
round, or an error. -/
structure Event where
  before : Master
  call : Call
  after : Master
  reply : Except Error (Option (Broadcast Float32 Float))

/-- A call on a master. What raises leaves the master as it is, rounds apart. -/
def perform (m : Master) : Call → Event
  | .init =>
    match m.start with
    | .ok next => ⟨m, .init, next, .ok none⟩
    | .error e => ⟨m, .init, m, .error e⟩
  | .compute results =>
    ⟨m, .compute results, (m.round results).master, (m.round results).result.map some⟩
  | .halt =>
    match m.halt with
    | .ok next => ⟨m, .halt, next, .ok none⟩
    | .error e => ⟨m, .halt, m, .error e⟩

/-- The calls on a master, one after the other. -/
def trace (m : Master) : List Call → List Event
  | [] => []
  | c :: rest => perform m c :: trace (perform m c).after rest

/-- The master behind calls. -/
def run (m : Master) (calls : List Call) : Master :=
  calls.foldl (fun m c => (perform m c).after) m

/-- The weights in force, once there is a model. -/
def weights? (m : Master) : Option (Parameters Float32) :=
  m.model?.map (·.parameters)

namespace Event

/-- The broadcast of a round that returned. -/
def broadcast? (e : Event) : Option (Broadcast Float32 Float) :=
  e.reply.toOption.join

/-- A round in which the optimizer moved some parameters and then failed. -/
def BrokenOff (e : Event) : Prop :=
  ∃ job i results totals gradients error, e.before.state = .aggregating job i ∧
    e.call = .compute results ∧ stepGradients job i results = .ok (totals, gradients) ∧
    BreaksOff job.optimizer job.model.parameters gradients error ∧
    e.after.state = .aggregating (job.move gradients).1 i ∧ e.reply = .error error

end Event

/-- Training is configured to use Adam with a rate that overshoots. -/
def RateOvershoots (t : TrainingConfig) : Prop :=
  ∃ o : Optimizer Float32, Configured t o ∧ Overshoots o

/-- How phases may follow each other. -/
inductive PhaseStep : Phase → Phase → Prop where
  | stay (p : Phase) : PhaseStep p p
  | start : PhaseStep .uninitialized .awaitingFirstRound
  | first : PhaseStep .awaitingFirstRound .aggregating
  | converge : PhaseStep .aggregating .converged
  | fail : PhaseStep .aggregating .failed

/-- The broadcasts of the rounds that returned, in order. -/
def broadcasts (events : List Event) : List (Broadcast Float32 Float) :=
  events.filterMap Event.broadcast?

/-- A master whose job is over. -/
def Ended (m : Master) : Prop :=
  m.phase = .converged ∨ m.phase = .failed

/-- What a call may do. -/
structure Lawful (e : Event) : Prop where
  phase : PhaseStep e.before.phase e.after.phase
  ended : Ended e.before → e.after = e.before ∧ ∃ error, e.reply = .error error ∧ error.kind = .phase
  returned : ∀ b, e.broadcast? = some b → b.iteration = e.before.iteration ∧
    e.after.iteration = e.before.iteration + 1 ∧ weights? e.after = some b.weights
  silent : e.broadcast? = none → e.after.iteration = e.before.iteration ∧
    ∀ ws, weights? e.before = some ws →
      weights? e.after = some ws ∨ e.BrokenOff ∧ RateOvershoots e.before.training
  first : e.before.phase = .awaitingFirstRound → ∀ results, e.call = .compute results →
    (∃ b, e.reply = .ok (some b)) ∧
      ∀ others, perform e.before (.compute others) = ⟨e.before, .compute others, e.after, e.reply⟩

/-- A job with at most one table for each column and with the configured rule and rate. -/
structure SoundJob (t : TrainingConfig) (job : Job Float32) : Prop where
  tables : DistinctTables job.model.layout
  optimizer : Configured t job.optimizer

/-- A master that has no use for a checkpoint and can draw its weights. -/
structure Sound (m : Master) : Prop where
  continuous : m.training.isContinuous = false
  drawable : ∀ source, m.chosenInitializer = .ok source → ∃ f, m.tape.draws source.law = .ok f
  awaiting : ∀ job source, m.state = .awaiting job source → ∃ f, m.tape.draws source.law = .ok f
  job : ∀ job, m.state.job? = some job → SoundJob m.training job

section Calls

variable {m : Master} {job : Job Float32} {source : Initializer} {i : Nat}

lemma phase_of_state {s : MasterState} (h : m.state = s) : m.phase = s.phase := by
  rw [← h]
  rfl

lemma iteration_of_state {s : MasterState} (h : m.state = s) : m.iteration = s.iteration := by
  rw [← h]
  rfl

lemma weights_of_state {s : MasterState} (h : m.state = s) :
    weights? m = s.job?.map fun job => job.model.parameters := by
  rw [← h]
  unfold weights? Master.model?
  rw [Option.map_map]
  rfl

lemma perform_of_round {next : Master} {results : List (Payload Float)} {notices : List Notice}
    {r : Except Error (Broadcast Float32 Float)} (h : m.round results = ⟨next, notices, r⟩) :
    perform m (.compute results) = ⟨m, .compute results, next, r.map some⟩ := by
  change (⟨m, .compute results, (m.round results).master, (m.round results).result.map some⟩ : Event) = _
  rw [h]

lemma not_ended {p : Phase} (h : m.phase = p) (hp : p ≠ .converged ∧ p ≠ .failed) : ¬Ended m := by
  rintro (hended | hended)
  · exact hp.1 (h.symm.trans hended)
  · exact hp.2 (h.symm.trans hended)

/-- A sound master stays sound with another sound job. -/
lemma sound_of_job {m' : Master} {next : Job Float32} (h : Sound m) (htraining : m'.training = m.training)
    (hinitializer : m'.initializer = m.initializer) (htape : m'.tape.draws = m.tape.draws)
    (hawaiting : m'.phase ≠ .awaitingFirstRound) (hjob : m'.state.job? = some next)
    (hsound : SoundJob m.training next) : Sound m' := by
  refine ⟨by rw [htraining]; exact h.continuous, fun source hsource => ?_,
    fun job source hstate => ?_, fun job hother => ?_⟩
  · rw [htape]
    refine h.drawable source ?_
    unfold Master.chosenInitializer at hsource ⊢
    rwa [← hinitializer, ← htraining]
  · exact absurd (phase_of_state hstate) hawaiting
  · rw [hjob] at hother
    rwa [htraining, ← Option.some.inj hother]

lemma distinct_of_layout {c : ModelConfig} {l : Layout} (h : c.layout = .ok l) : DistinctTables l :=
  distinct_of_make (plan_eq_ok.mp h).1

/-- A call on a running master that brings no broadcast. -/
lemma lawful_of_silent {e : Event} (hbroadcast : e.broadcast? = none) (hended : ¬Ended e.before)
    (hphase : PhaseStep e.before.phase e.after.phase) (hiteration : e.after.iteration = e.before.iteration)
    (hweights : ∀ ws, weights? e.before = some ws →
      weights? e.after = some ws ∨ e.BrokenOff ∧ RateOvershoots e.before.training)
    (hcall : e.before.phase = .awaitingFirstRound → ∀ results, e.call ≠ .compute results) :
    Lawful e := by
  refine ⟨hphase, fun hover => absurd hover hended, fun b hb => ?_, fun _ => ⟨hiteration, hweights⟩,
    fun hawaiting results hcompute => absurd hcompute (hcall hawaiting results)⟩
  rw [hbroadcast] at hb
  cases hb

/-- A call that raises and changes nothing. -/
lemma lawful_of_refused {e : Event} {error : Error} (hafter : e.after = e.before)
    (hreply : e.reply = .error error) (hkind : Ended e.before → error.kind = .phase)
    (hcall : e.before.phase = .awaitingFirstRound → ∀ results, e.call ≠ .compute results) :
    Lawful e := by
  have hbroadcast : e.broadcast? = none := by
    unfold Event.broadcast?
    rw [hreply]
    rfl
  refine ⟨?_, fun hended => ⟨hafter, error, hreply, hkind hended⟩, ?_, fun _ => ?_, ?_⟩
  · rw [hafter]
    exact PhaseStep.stay _
  · intro b hb
    rw [hbroadcast] at hb
    cases hb
  · rw [hafter]
    exact ⟨rfl, fun ws hws => Or.inl hws⟩
  · exact fun hphase results hcompute => absurd hcompute (hcall hphase results)

/-- What every call keeps and does. -/
structure Steps (e : Event) : Prop where
  sound : Sound e.after
  training : e.after.training = e.before.training
  lawful : Lawful e

lemma steps_of_refused {e : Event} {error : Error} (h : Sound e.before) (hafter : e.after = e.before)
    (hreply : e.reply = .error error) (hkind : Ended e.before → error.kind = .phase)
    (hcall : e.before.phase = .awaitingFirstRound → ∀ results, e.call ≠ .compute results) :
    Steps e :=
  ⟨by rwa [hafter], by rw [hafter], lawful_of_refused hafter hreply hkind hcall⟩

lemma steps_init (h : Sound m) : Steps (perform m .init) := by
  cases hstart : m.start with
  | error e =>
    have hevent : perform m .init = ⟨m, .init, m, .error e⟩ := by
      unfold perform
      rw [hstart]
    rw [hevent]
    refine steps_of_refused h rfl rfl (fun hended => ?_) fun _ _ hcall => by cases hcall
    have hphase : m.phase ≠ .uninitialized := by
      rcases hended with hp | hp <;> simp [hp]
    rw [start_refused hphase] at hstart
    cases hstart
    rfl
  | ok next =>
    have hevent : perform m .init = ⟨m, .init, next, .ok none⟩ := by
      unfold perform
      rw [hstart]
    obtain ⟨hstate, layout, optimizer, source, hlayout, hsource, hoptimizer, rfl⟩ :=
      start_eq_ok hstart
    have hphase : m.phase = .uninitialized := phase_of_state hstate
    rw [hevent]
    refine ⟨⟨h.continuous, fun source' hsource' => h.drawable source' hsource', ?_, ?_⟩, rfl, ?_⟩
    · intro job source' hawaiting
      cases hawaiting
      exact h.drawable source hsource
    · intro job hjob
      cases hjob
      exact ⟨distinct_of_layout hlayout, hoptimizer⟩
    · refine lawful_of_silent rfl (not_ended hphase (by simp)) ?_ (iteration_of_state hstate).symm ?_
        fun _ _ hcall => by cases hcall
      · dsimp only
        rw [hphase]
        exact PhaseStep.start
      · intro ws hws
        dsimp only at hws
        rw [weights_of_state hstate] at hws
        cases hws

lemma steps_halt (h : Sound m) : Steps (perform m .halt) := by
  by_cases haggregating : ∃ job i, m.state = .aggregating job i
  · obtain ⟨job, i, hstate⟩ := haggregating
    have hevent : perform m .halt =
        ⟨m, .halt, { m with state := .converged job i }, .ok none⟩ := by
      unfold perform Master.halt
      rw [hstate]
    have hphase : m.phase = .aggregating := phase_of_state hstate
    rw [hevent]
    refine ⟨sound_of_job h rfl rfl rfl (by simp [Master.phase, MasterState.phase]) rfl
      (h.job job (by rw [hstate]; rfl)), rfl, ?_⟩
    refine lawful_of_silent rfl (not_ended hphase (by simp)) ?_ (iteration_of_state hstate).symm ?_
      fun _ _ hcall => by cases hcall
    · dsimp only
      rw [hphase]
      exact PhaseStep.converge
    · intro ws hws
      dsimp only at hws
      rw [weights_of_state hstate] at hws
      exact Or.inl hws
  · have hhalt : m.halt = .error (.haltRefused m.phase) := by
      unfold Master.halt
      split
      · rename_i job i hstate
        exact absurd ⟨job, i, hstate⟩ haggregating
      · rfl
    have hevent : perform m .halt = ⟨m, .halt, m, .error (.haltRefused m.phase)⟩ := by
      unfold perform
      rw [hhalt]
    rw [hevent]
    exact steps_of_refused h rfl rfl (fun _ => rfl) fun _ _ hcall => by cases hcall

/-- A round that returns. -/
lemma lawful_of_returned {e : Event} {b : Broadcast Float32 Float} (hreply : e.reply = .ok (some b))
    (hended : ¬Ended e.before) (hphase : PhaseStep e.before.phase e.after.phase)
    (hnumber : b.iteration = e.before.iteration) (hnext : e.after.iteration = e.before.iteration + 1)
    (hweights : weights? e.after = some b.weights)
    (hfirst : e.before.phase = .awaitingFirstRound → ∀ others,
      perform e.before (.compute others) = ⟨e.before, .compute others, e.after, e.reply⟩) :
    Lawful e := by
  have hbroadcast : e.broadcast? = some b := by
    unfold Event.broadcast?
    rw [hreply]
    rfl
  refine ⟨hphase, fun hover => absurd hover hended, fun b' hb => ?_, fun hnone => ?_,
    fun hawaiting results _ => ⟨⟨b, hreply⟩, hfirst hawaiting⟩⟩
  · rw [hbroadcast] at hb
    cases hb
    exact ⟨hnumber, hnext, hweights⟩
  · rw [hbroadcast] at hnone
    cases hnone

lemma steps_compute_awaiting (h : Sound m) (hstate : m.state = .awaiting job source)
    (results : List (Payload Float)) : Steps (perform m (.compute results)) := by
  obtain ⟨f, hlaw⟩ := h.awaiting job source hstate
  obtain ⟨⟨model, tape⟩, hdraw⟩ := drawWeights_ok hlaw job.model
  have htape : tape.draws = m.tape.draws := by
    rw [drawWeights_eq hlaw job.model] at hdraw
    cases hdraw
    rfl
  have hfirst := firstModel_of_not_continuous job.model source h.continuous
  rw [hdraw] at hfirst
  have hround : ∀ others, perform m (.compute others) =
      ⟨m, .compute others, { m with tape, state := .aggregating { job with model } 1 },
        .ok (some ⟨model.parameters, Totals.zero, 0⟩)⟩ :=
    fun others => perform_of_round (round_of_firstModel hstate others hfirst)
  have hphase : m.phase = .awaitingFirstRound := phase_of_state hstate
  have hiteration : m.iteration = 0 := iteration_of_state hstate
  have hlayout : model.layout = job.model.layout := by
    obtain ⟨⟨ps, t⟩, -, hmodel⟩ := bind_eq_ok.mp hdraw
    cases hmodel
    rfl
  have hjob := h.job job (by rw [hstate]; rfl)
  have hnext : SoundJob m.training { job with model } :=
    ⟨by rw [hlayout]; exact hjob.tables, hjob.optimizer⟩
  rw [hround]
  refine ⟨sound_of_job h rfl rfl htape (by simp [Master.phase, MasterState.phase]) rfl hnext, rfl, ?_⟩
  refine lawful_of_returned rfl (not_ended hphase (by simp)) ?_ hiteration.symm ?_ rfl
    fun _ others => hround others
  · dsimp only
    rw [hphase]
    exact PhaseStep.first
  · dsimp only
    rw [hiteration]
    rfl

lemma soundJob_aggregate (h : SoundJob m.training job) (i : Nat) (results : List (Payload Float)) :
    SoundJob m.training (job.aggregate i results).job := by
  obtain ⟨hlayout, hrule, hrate⟩ := aggregate_keeps job i results
  obtain ⟨name, hname, hof, hnumber⟩ := h.optimizer
  exact ⟨by rw [hlayout]; exact h.tables, name, hname, by rw [hrule]; exact hof,
    by rw [hrate]; exact hnumber⟩

lemma steps_aggregate_ok (h : Sound m) (hstate : m.state = .aggregating job i)
    {results : List (Payload Float)} {next : Job Float32} {totals : Totals Float}
    (hagg : job.aggregate i results = ⟨next, .ok totals⟩) : Steps (perform m (.compute results)) := by
  have hphase : m.phase = .aggregating := phase_of_state hstate
  have hiteration : m.iteration = i := iteration_of_state hstate
  have hnext := soundJob_aggregate (h.job job (by rw [hstate]; rfl)) i results
  rw [hagg] at hnext
  rw [perform_of_round (round_of_aggregate hstate hagg)]
  refine ⟨sound_of_job h rfl rfl rfl (by simp [Master.phase, MasterState.phase]) rfl hnext, rfl, ?_⟩
  refine lawful_of_returned rfl (not_ended hphase (by simp)) ?_ hiteration.symm ?_ rfl
    (by simp [hphase])
  · dsimp only
    rw [hphase]
    exact PhaseStep.stay _
  · dsimp only
    rw [hiteration]
    rfl

/-- A round that raises leaves the number of the next round, and it leaves the weights unless it was
broken off. -/
lemma steps_aggregate_error (h : Sound m) (hstate : m.state = .aggregating job i)
    {results : List (Payload Float)} {next : Job Float32} {e : Error}
    (hagg : job.aggregate i results = ⟨next, .error e⟩) : Steps (perform m (.compute results)) := by
  have hphase : m.phase = .aggregating := phase_of_state hstate
  have hended : ¬Ended m := not_ended hphase (by simp)
  have hjob := h.job job (by rw [hstate]; rfl)
  have hnext := soundJob_aggregate hjob i results
  rw [hagg] at hnext
  have hbefore : weights? m = some job.model.parameters := weights_of_state hstate
  have hround := round_of_aggregate_error hstate hagg
  have hleft := aggregate_error hjob.tables hagg
  by_cases hvalue : e.isValue = true
  · have hmodel : next.model = job.model := by
      rcases hleft with hsame | ⟨hother, -⟩
      · exact hsame
      · rw [hvalue] at hother
        cases hother
    rw [if_pos hvalue] at hround
    rw [perform_of_round hround]
    refine ⟨sound_of_job h rfl rfl rfl (by simp [Master.phase, MasterState.phase]) rfl hnext, rfl, ?_⟩
    refine lawful_of_silent rfl hended ?_ (iteration_of_state hstate).symm ?_ (by simp [hphase])
    · dsimp only
      rw [hphase]
      exact PhaseStep.fail
    · intro ws hws
      left
      rw [← hws, hbefore, ← hmodel]
      rfl
  · rw [if_neg hvalue] at hround
    rw [perform_of_round hround]
    refine ⟨sound_of_job h rfl rfl rfl (by simp [Master.phase, MasterState.phase]) rfl hnext, rfl, ?_⟩
    refine lawful_of_silent rfl hended ?_ (iteration_of_state hstate).symm ?_ (by simp [hphase])
    · dsimp only
      rw [hphase]
      exact PhaseStep.stay _
    · intro ws hws
      rcases hleft with hsame | ⟨-, totals, gradients, hgradients, rfl, hbreaks, hovershoots⟩
      · left
        rw [← hws, hbefore, ← hsame]
        rfl
      · right
        exact ⟨⟨job, i, results, totals, gradients, e, hstate, rfl, hgradients, hbreaks, rfl, rfl⟩,
          job.optimizer, hjob.optimizer, hovershoots⟩

lemma steps_compute (h : Sound m) (results : List (Payload Float)) :
    Steps (perform m (.compute results)) := by
  have hrefused : m.phase ≠ .awaitingFirstRound → m.phase ≠ .aggregating →
      Steps (perform m (.compute results)) := by
    intro hawaiting haggregating
    have hevent : perform m (.compute results) =
        ⟨m, .compute results, m, .error (.roundRefused m.phase)⟩ :=
      perform_of_round (round_refused hawaiting haggregating results)
    rw [hevent]
    exact steps_of_refused h rfl rfl (fun _ => rfl) fun hphase => absurd hphase hawaiting
  cases hstate : m.state with
  | uninitialized =>
    have hphase : m.phase = .uninitialized := phase_of_state hstate
    exact hrefused (by simp [hphase]) (by simp [hphase])
  | awaiting job source => exact steps_compute_awaiting h hstate results
  | aggregating job i =>
    cases hagg : job.aggregate i results with
    | mk next result =>
      cases result with
      | ok totals => exact steps_aggregate_ok h hstate hagg
      | error e => exact steps_aggregate_error h hstate hagg
  | converged job i =>
    have hphase : m.phase = .converged := phase_of_state hstate
    exact hrefused (by simp [hphase]) (by simp [hphase])
  | failed job i =>
    have hphase : m.phase = .failed := phase_of_state hstate
    exact hrefused (by simp [hphase]) (by simp [hphase])

/-- Whatever is called, a sound master stays sound, and the call does what it may. -/
theorem steps_perform (h : Sound m) (c : Call) : Steps (perform m c) := by
  cases c with
  | init => exact steps_init h
  | compute results => exact steps_compute h results
  | halt => exact steps_halt h

end Calls

section Runs

variable {m : Master}

lemma before_perform (m : Master) (c : Call) : (perform m c).before = m := by
  cases c with
  | init =>
    unfold perform
    cases m.start <;> rfl
  | compute results => rfl
  | halt =>
    unfold perform
    cases m.halt <;> rfl

lemma trace_cons (m : Master) (c : Call) (calls : List Call) :
    trace m (c :: calls) = perform m c :: trace (perform m c).after calls := rfl

lemma run_cons (m : Master) (c : Call) (calls : List Call) :
    run m (c :: calls) = run (perform m c).after calls := rfl

/-- Every call of a run does what it may, under the settings that the run began with. -/
theorem lawful_trace (h : Sound m) (calls : List Call) :
    ∀ e ∈ trace m calls, Lawful e ∧ e.before.training = m.training := by
  induction calls generalizing m with
  | nil => simp [trace]
  | cons c rest ih =>
    intro e he
    have hsteps := steps_perform h c
    have hbefore := before_perform m c
    rcases List.mem_cons.mp he with rfl | hrest
    · exact ⟨hsteps.lawful, by rw [hbefore]⟩
    · obtain ⟨hlawful, htraining⟩ := ih hsteps.sound e hrest
      exact ⟨hlawful, by rw [htraining, hsteps.training, hbefore]⟩

lemma sound_run (h : Sound m) (calls : List Call) : Sound (run m calls) := by
  induction calls generalizing m with
  | nil => exact h
  | cons c rest ih => exact ih (steps_perform h c).sound

/-- The broadcasts of a run are numbered from the number of the master on, one by one. -/
theorem broadcasts_trace (h : Sound m) (calls : List Call) :
    (broadcasts (trace m calls)).map (·.iteration) =
        List.range' m.iteration (broadcasts (trace m calls)).length ∧
      (run m calls).iteration = m.iteration + (broadcasts (trace m calls)).length := by
  induction calls generalizing m with
  | nil => exact ⟨rfl, rfl⟩
  | cons c rest ih =>
    obtain ⟨hnumbers, hcount⟩ := ih (steps_perform h c).sound
    have hlawful := (steps_perform h c).lawful
    have hbefore := before_perform m c
    rw [run_cons, trace_cons]
    unfold broadcasts at *
    cases hbroadcast : (perform m c).broadcast? with
    | none =>
      have hsame := (hlawful.silent hbroadcast).1
      rw [hbefore] at hsame
      rw [List.filterMap_cons_none hbroadcast, ← hsame]
      exact ⟨hnumbers, hcount⟩
    | some b =>
      obtain ⟨hnumber, hnext, -⟩ := hlawful.returned b hbroadcast
      rw [hbefore] at hnumber hnext
      rw [List.filterMap_cons_some hbroadcast, List.map_cons, List.length_cons, List.range'_succ,
        hnumber, ← hnext]
      refine ⟨congrArg (m.iteration :: ·) hnumbers, ?_⟩
      rw [hcount]
      omega

/-- Once a job is over, nothing that is called changes anything. -/
theorem run_ended (h : Sound m) (hended : Ended m) (calls : List Call) :
    run m calls = m ∧ ∀ e ∈ trace m calls, ∃ error, e.reply = .error error ∧ error.kind = .phase := by
  induction calls with
  | nil => exact ⟨rfl, by simp [trace]⟩
  | cons c rest ih =>
    have hbefore := before_perform m c
    obtain ⟨hafter, hreply⟩ := (steps_perform h c).lawful.ended (by rwa [hbefore])
    rw [hbefore] at hafter
    rw [run_cons, trace_cons, hafter]
    refine ⟨ih.1, fun e he => ?_⟩
    rcases List.mem_cons.mp he with rfl | hrest
    · exact hreply
    · exact ih.2 e hrest

lemma sound_make (config : ModelConfig) (training : TrainingConfig) (initializer : Option Initializer)
    (tape : Tape) (checkpoint : Checkpoint) (hcontinuous : training.isContinuous = false)
    (hdraws : ∀ source, (Master.make config training initializer tape checkpoint).chosenInitializer =
      .ok source → ∃ f, tape.draws source.law = .ok f) :
    Sound (Master.make config training initializer tape checkpoint) :=
  ⟨hcontinuous, hdraws, fun _ _ hstate => (by cases hstate), fun _ hjob => (by cases hjob)⟩

/-- What is called on a new master that does not train on and whose weights can be drawn: each call
does what it may, the number of the next round is the number of the rounds that returned, these
broadcast the numbers from zero on, once the job is over every call is refused, and unless the rate
overshoots the weights change in no call but a round that returns. -/
theorem master_run (config : ModelConfig) (training : TrainingConfig) (initializer : Option Initializer)
    (tape : Tape) (checkpoint : Checkpoint) (hcontinuous : training.isContinuous = false)
    (hdraws : ∀ source, (Master.make config training initializer tape checkpoint).chosenInitializer =
      .ok source → ∃ f, tape.draws source.law = .ok f) (calls : List Call) :
    let m := Master.make config training initializer tape checkpoint
    (∀ e ∈ trace m calls, Lawful e) ∧
    (run m calls).iteration = (broadcasts (trace m calls)).length ∧
    (broadcasts (trace m calls)).map (·.iteration) =
      List.range (broadcasts (trace m calls)).length ∧
    (Ended (run m calls) → ∀ more, run (run m calls) more = run m calls ∧
      ∀ e ∈ trace (run m calls) more, ∃ error, e.reply = .error error ∧ error.kind = .phase) ∧
    (¬RateOvershoots training → ∀ e ∈ trace m calls, e.broadcast? = none →
      ∀ ws, weights? e.before = some ws → weights? e.after = some ws) := by
  intro m
  have hsound : Sound m := sound_make config training initializer tape checkpoint hcontinuous hdraws
  have hzero : m.iteration = 0 := rfl
  obtain ⟨hnumbers, hcount⟩ := broadcasts_trace hsound calls
  rw [hzero] at hnumbers hcount
  rw [Nat.zero_add] at hcount
  rw [← List.range_eq_range'] at hnumbers
  refine ⟨fun e he => (lawful_trace hsound calls e he).1, hcount, hnumbers,
    fun hended more => run_ended (sound_run hsound calls) hended more, ?_⟩
  intro hrate e he hnone ws hws
  obtain ⟨hlawful, htraining⟩ := lawful_trace hsound calls e he
  rcases (hlawful.silent hnone).2 ws hws with hsame | ⟨-, hovershoots⟩
  · exact hsame
  · rw [htraining] at hovershoots
    exact absurd hovershoots hrate

end Runs

section Sample

/-- A master that moves a model of one column by steps that shrink with what it has seen. -/
def skyMaster : Master :=
  Master.make skyConfig (TrainingConfig.initial.set .optimizer (.text "adagrad"))
    (some (.range 0 1)) (Tape.linear 1 0) .noPath

def skyShapes : List (ParamName × List Nat) :=
  [(.wideBias, [1]), (.embedding 0, [3, 1]), (.wide 0, [3, 1]), (.deepWeight 0, [1, 1]),
    (.deepBias 0, [1])]

/-- A payload of one record, with a one for each gradient. -/
def onesPayload : Payload Float :=
  ⟨skyShapes.map fun p => (p.1, Tensor.replicate p.2 1), ⟨1, 0, 1, 0⟩, 1⟩

/-- A start, a first round, a round with a step, and a halt. -/
def skyCalls : List Call :=
  [.init, .compute [], .compute [onesPayload], .halt]

/-- The numbers of the weights of a master, parameter by parameter. -/
def numbers? (m : Master) : Option (List (List Float32)) :=
  (weights? m).map fun ws => ws.map (·.2.data)

set_option maxRecDepth 10000 in
lemma skyCalls_move : (run skyMaster skyCalls).iteration = 2 ∧
    numbers? (run skyMaster skyCalls) ≠ numbers? (run skyMaster [.init, .compute []]) := by
  decide +kernel

theorem master_run_halted :
    Ended (run skyMaster skyCalls) ∧ (run skyMaster skyCalls).iteration = 2 ∧
    (∀ e ∈ trace skyMaster skyCalls, Lawful e) ∧
    weights? (run skyMaster skyCalls) ≠ weights? (run skyMaster [.init, .compute []]) ∧
    run (run skyMaster skyCalls) [.compute [], .init] = run skyMaster skyCalls := by
  have hdraws : ∀ source, skyMaster.chosenInitializer = .ok source →
      ∃ f, skyMaster.tape.draws source.law = .ok f := by
    intro source hsource
    cases hsource
    exact ⟨_, rfl⟩
  obtain ⟨hiteration, hmoved⟩ := skyCalls_move
  have hended : Ended (run skyMaster skyCalls) := Or.inl (by decide +kernel)
  obtain ⟨hlawful, -, -, hover, -⟩ := master_run _ _ _ (Tape.linear 1 0) .noPath rfl hdraws skyCalls
  refine ⟨hended, hiteration, hlawful, fun hsame => hmoved ?_, (hover hended [.compute [], .init]).1⟩
  unfold numbers?
  rw [hsame]

end Sample

end WideDeep.Proofs
