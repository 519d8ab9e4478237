import Mathlib.Tactic
import WideDeep.Master
import WideDeep.Proofs.InitialDraws
import WideDeep.Proofs.Results

/-!
# Single calls on a master

What a start, a round and a halt do in each phase.
-/

namespace WideDeep.Proofs

section Rounds

variable {m : Master} {job : Job Float32} {source : Initializer} {i : Nat}

lemma round_of_firstModel (hstate : m.state = .awaiting job source) (results : List (Payload Float))
    {notices : List Notice} {model : Model Float32} {tape : Tape}
    (hfirst : m.firstModel job.model source = (notices, .ok (model, tape))) :
    m.round results =
      ⟨{ m with tape, state := .aggregating { job with model } 1 }, notices,
        .ok ⟨model.parameters, Totals.zero, 0⟩⟩ := by
  unfold Master.round
  simp only [hstate, hfirst]

lemma round_of_firstModel_error (hstate : m.state = .awaiting job source)
    (results : List (Payload Float)) {notices : List Notice} {e : Error}
    (hfirst : m.firstModel job.model source = (notices, .error e)) :
    m.round results = ⟨m, notices, .error e⟩ := by
  unfold Master.round
  simp only [hstate, hfirst]

lemma round_of_aggregate (hstate : m.state = .aggregating job i) {results : List (Payload Float)}
    {next : Job Float32} {totals : Totals Float} (hagg : job.aggregate i results = ⟨next, .ok totals⟩) :
    m.round results =
      ⟨{ m with state := .aggregating next (i + 1) }, [],
        .ok ⟨next.model.parameters, totals, i⟩⟩ := by
  unfold Master.round
  simp only [hstate, hagg]

lemma round_of_aggregate_error (hstate : m.state = .aggregating job i)
    {results : List (Payload Float)} {next : Job Float32} {e : Error}
    (hagg : job.aggregate i results = ⟨next, .error e⟩) :
    m.round results =
      if e.isValue then ⟨{ m with state := .failed next i }, [.roundFailed i], .error e⟩
      else ⟨{ m with state := .aggregating next i }, [], .error e⟩ := by
  unfold Master.round
  simp only [hstate, hagg]

lemma round_refused (h : m.phase ≠ .awaitingFirstRound) (h' : m.phase ≠ .aggregating)
    (results : List (Payload Float)) : m.round results = ⟨m, [], .error (.roundRefused m.phase)⟩ := by
  unfold Master.round
  cases hstate : m.state with
  | uninitialized => rfl
  | awaiting job source =>
    unfold Master.phase at h
    rw [hstate] at h
    exact absurd rfl h
  | aggregating job i =>
    unfold Master.phase at h'
    rw [hstate] at h'
    exact absurd rfl h'
  | converged job i => rfl
  | failed job i => rfl

lemma halt_of_aggregating (hstate : m.state = .aggregating job i) :
    m.halt = .ok { m with state := .converged job i } := by
  unfold Master.halt
  simp only [hstate]

end Rounds

section FirstModel

variable {m : Master} {source : Initializer}

/-- Weights are drawn from every law that the generator accepts. -/
theorem drawWeights_ok {t : Tape} {f : Nat → Float} (h : t.draws source.law = .ok f)
    (model : Model Float32) : ∃ drawn, model.drawWeights source t = .ok drawn :=
  ⟨_, drawWeights_eq h model⟩

/-- Without a checkpoint, the weights of the first round are drawn. -/
lemma firstModel_of_not_continuous (model : Model Float32) (source : Initializer)
    (h : m.training.isContinuous = false) :
    m.firstModel model source = ([], model.drawWeights source m.tape) := by
  unfold Master.firstModel
  simp only [h, Bool.false_eq_true, if_false]
  rfl

end FirstModel

section Starts

variable {m next : Master}

lemma start_refused (h : m.phase ≠ .uninitialized) : m.start = .error (.initRefused m.phase) := by
  unfold Master.start
  simp only [ne_eq, h, not_false_eq_true, if_true]
  rfl

/-- An optimizer has the configured rule and rate. -/
def Configured (t : TrainingConfig) (o : Optimizer Float32) : Prop :=
  ∃ name, t.textOf .optimizer = .ok name ∧ OptimizerRule.ofName? name = some o.rule ∧
    (t.value .learningRate).toNumber = .ok o.rate

lemma configured_of_make {t : TrainingConfig} {o : Optimizer Float32} {name : String} {decay : Float}
    (hname : t.textOf .optimizer = .ok name)
    (h : Optimizer.make name (t.value .learningRate) decay = .ok o) : Configured t o := by
  unfold Optimizer.make at h
  cases hrule : OptimizerRule.ofName? name with
  | none =>
    rw [hrule] at h
    cases h
  | some rule =>
    rw [hrule] at h
    obtain ⟨rate, hrate, hrest⟩ := bind_eq_ok.mp h
    obtain ⟨refused, hrefused⟩ : ∃ refused : Number → Bool, refused = fun x =>
        if rule = .sgd then x.less Optimizer.nothing else !Optimizer.nothing.atMost x := ⟨_, rfl⟩
    rw [← hrefused] at hrest
    dsimp only at hrest
    by_cases hbad : (refused rate || refused (.real decay)) = true
    · rw [if_pos hbad] at hrest
      cases hrest
    · rw [if_neg hbad] at hrest
      cases hrest
      exact ⟨name, hname, hrule, hrate⟩

/-- A start that succeeds leaves a job with the configured model, all weights zero. -/
theorem start_eq_ok (h : m.start = .ok next) :
    m.state = .uninitialized ∧ ∃ layout optimizer source,
      m.config.layout = .ok layout ∧ m.chosenInitializer = .ok source ∧
        Configured m.training optimizer ∧
          next = { m with state := .awaiting ⟨Model.blank layout, optimizer⟩ source } := by
  have hphase : m.phase = .uninitialized := by
    by_contra hother
    rw [start_refused hother] at h
    cases h
  have hstate : m.state = .uninitialized := by
    unfold Master.phase at hphase
    cases hs : m.state with
    | uninitialized => rfl
    | awaiting job source => rw [hs] at hphase; cases hphase
    | aggregating job i => rw [hs] at hphase; cases hphase
    | converged job i => rw [hs] at hphase; cases hphase
    | failed job i => rw [hs] at hphase; cases hphase
  unfold Master.start at h
  simp only [ne_eq, hphase, not_true_eq_false, if_false] at h
  obtain ⟨model, hmodel, hrest⟩ := bind_eq_ok.mp h
  obtain ⟨source, hsource, hrest⟩ := bind_eq_ok.mp hrest
  obtain ⟨name, hname, hrest⟩ := bind_eq_ok.mp hrest
  obtain ⟨optimizer, hoptimizer, hrest⟩ := bind_eq_ok.mp hrest
  obtain ⟨layout, hlayout, rfl⟩ := map_eq_ok.mp hmodel
  exact ⟨hstate, layout, optimizer, source, hlayout, hsource,
    configured_of_make hname hoptimizer, (Except.ok.inj hrest).symm⟩

end Starts

end WideDeep.Proofs
