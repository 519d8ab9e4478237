import Mathlib.Tactic
import WideDeep.Training
import WideDeep.Proofs.LeastErrors
import WideDeep.Proofs.MasterSteps
import WideDeep.Proofs.OptimizerSteps

/-!
# Training epochs

In each epoch of a run, the workers compute on the last broadcast and the master takes one step. The
history has the errors of all epochs, and what is stored are the weights on which the least of them
was measured: those that were broadcast before the round that reports it.
-/

namespace WideDeep.Proofs

/-- Rounds behind a first broadcast. In each of them the workers compute on the last broadcast, their
payloads are added up, and the weights move by one step of the optimizer. -/
inductive Rounds (workers : List (Worker Float32)) (first : Broadcast Float32 Float)
    (start : Job Float32) : List (Broadcast Float32 Float) → Job Float32 → Prop
  | none : Rounds workers first start [] start
  | round {before : List (Broadcast Float32 Float)} {job next : Job Float32}
      {payloads : List (Payload Float)} {totals : Totals Float} {gradients : Parameters Float32}
      (earlier : Rounds workers first start before job)
      (computed : (workers.mapM fun w => w.compute Float (some (before.getLastD first).weights)
        (before.getLastD first).iteration) = .ok payloads)
      (summed : stepGradients job (before.length + 1) payloads = .ok (totals, gradients))
      (moved : job.move gradients = (next, .ok ())) :
      Rounds workers first start
        (before ++ [⟨next.model.parameters, totals, before.length + 1⟩]) next

/-- The error of an epoch: that of its validation records for each unit of their weight, or else that
of its training records for each unit of theirs, or else zero. -/
def epochError (t : Totals Float) : Float :=
  if 0 < t.validationCount then t.validationError / t.validationCount
  else if 0 < t.trainCount then t.trainError / t.trainCount
  else 0

/-- The errors that decide about stopping, round by round. -/
def errorsOf (rounds : List (Broadcast Float32 Float)) : List Float :=
  rounds.map fun b => epochError b.totals

/-- What the state of a run says about its rounds. -/
structure Follows (s : RunSetup) (first : Broadcast Float32 Float)
    (rounds : List (Broadcast Float32 Float)) (job : Job Float32) (state : RunState) : Prop where
  master : state.master.state = .aggregating job (rounds.length + 1)
  broadcast : state.broadcast = rounds.getLastD first
  trainErrors : state.history.trainErrors = rounds.map (·.totals.meanTrainError)
  validationErrors : state.history.validationErrors = rounds.map (·.totals.meanValidationError)
  best : state.history.bestIteration = bestEpoch (errorsOf rounds)
  least : state.history.bestError = leastError (errorsOf rounds)
  patience : state.patience + bestEpoch (errorsOf rounds) = rounds.length
  saved : s.saves = true → ∀ k, bestEpoch (errorsOf rounds) = k + 1 → ∃ b bytes,
    (first :: rounds)[k]? = some b ∧ Training.stored s b.weights = .ok bytes ∧
      state.saved = some bytes

section Steps

variable {α δ : Type} [Scalar α] [Scalar δ] [Precision α δ] {job next : Job α} {i : Nat}
  {results : List (Payload δ)} {totals : Totals δ}

lemma aggregate_eq_ok : job.aggregate i results = ⟨next, .ok totals⟩ ↔ ∃ gradients,
    stepGradients job i results = .ok (totals, gradients) ∧ job.move gradients = (next, .ok ()) := by
  cases hgradients : stepGradients job i results with
  | error e =>
    rw [aggregate_of_gradients_error hgradients]
    simp
  | ok p =>
    obtain ⟨totals', gradients⟩ := p
    rw [aggregate_of_gradients hgradients]
    constructor
    · intro h
      obtain ⟨hjob, hresult⟩ := JobOutcome.mk.inj h
      obtain ⟨u, hu, heq⟩ := map_eq_ok.mp hresult
      exact ⟨gradients, by rw [heq], Prod.ext hjob hu⟩
    · rintro ⟨gradients', heq, hmove⟩
      cases heq
      rw [hmove]
      rfl

end Steps

section Epochs

/-- What a run monitors is the error of the epoch. -/
lemma monitored_eq (t : Totals Float) : t.monitored = epochError t := by
  unfold Totals.monitored Totals.meanValidationError Totals.meanTrainError Totals.mean epochError
  by_cases h : 0 < t.validationCount <;> simp [Scalar.less, h]

variable {s : RunSetup} {workers : List (Worker Float32)} {first : Broadcast Float32 Float}
  {start job : Job Float32} {rounds : List (Broadcast Float32 Float)} {state next : RunState}
  {notices : List Notice}

lemma errorsOf_append (rounds : List (Broadcast Float32 Float)) (b : Broadcast Float32 Float) :
    errorsOf (rounds ++ [b]) = errorsOf rounds ++ [epochError b.totals] := by
  unfold errorsOf
  rw [List.map_append, List.map_singleton]

lemma length_errorsOf (rounds : List (Broadcast Float32 Float)) :
    (errorsOf rounds).length = rounds.length :=
  List.length_map _

/-- A round of a running master that brings a broadcast has moved the weights by one step. -/
lemma round_eq_ok {m : Master} {i : Nat} {results : List (Payload Float)}
    {b : Broadcast Float32 Float} (hstate : m.state = .aggregating job i)
    (h : (m.round results).result = .ok b) : ∃ moved gradients,
      stepGradients job i results = .ok (b.totals, gradients) ∧
      job.move gradients = (moved, .ok ()) ∧ b = ⟨moved.model.parameters, b.totals, i⟩ ∧
      (m.round results).master.state = .aggregating moved (i + 1) := by
  cases hagg : job.aggregate i results with
  | mk moved result =>
    cases result with
    | error e =>
      rw [round_of_aggregate_error hstate hagg] at h
      split at h <;> cases h
    | ok totals =>
      rw [round_of_aggregate hstate hagg] at h ⊢
      cases h
      obtain ⟨gradients, hgradients, hmove⟩ := aggregate_eq_ok.mp hagg
      exact ⟨moved, gradients, hgradients, hmove, rfl, rfl⟩

/-- What a round of a run makes of its broadcast: the history is continued, and if the error is the
least so far, the weights that were broadcast before are stored. -/
lemma epoch_eq_ok (hepoch : Training.epoch s workers (rounds.length + 1) state = (notices, .ok next)) :
    ∃ payloads b, (workers.mapM fun w =>
        w.compute Float (some state.broadcast.weights) state.broadcast.iteration) = .ok payloads ∧
      (state.master.round payloads).result = .ok b ∧
      next.master = (state.master.round payloads).master ∧ next.broadcast = b ∧
      next.history.trainErrors = state.history.trainErrors ++ [b.totals.meanTrainError] ∧
      next.history.validationErrors =
        state.history.validationErrors ++ [b.totals.meanValidationError] ∧
      if Binary.less (epochError b.totals) state.history.bestError then
        next.history.bestIteration = rounds.length + 1 ∧
          next.history.bestError = epochError b.totals ∧ next.patience = 0 ∧
          (s.saves = true → ∃ bytes, Training.stored s state.broadcast.weights = .ok bytes ∧
            next.saved = some bytes)
      else
        next.history.bestIteration = state.history.bestIteration ∧
          next.history.bestError = state.history.bestError ∧ next.patience = state.patience + 1 ∧
          next.saved = state.saved := by
  unfold Training.epoch at hepoch
  dsimp only at hepoch
  cases hpayloads : workers.mapM fun w =>
      w.compute Float (some state.broadcast.weights) state.broadcast.iteration with
  | error e =>
    rw [hpayloads] at hepoch
    cases (Prod.mk.inj hepoch).2
  | ok payloads =>
    rw [hpayloads] at hepoch
    obtain ⟨b, hb, hrest⟩ := bind_eq_ok.mp (Prod.mk.inj hepoch).2
    refine ⟨payloads, b, rfl, hb, ?_⟩
    have himproves : (state.history.record b.totals).improves (epochError b.totals) =
        Binary.less (epochError b.totals) state.history.bestError := rfl
    rw [monitored_eq] at hrest
    by_cases hless : Binary.less (epochError b.totals) state.history.bestError = true
    · rw [himproves, if_pos hless] at hrest
      rw [if_pos hless]
      by_cases hsaves : s.saves = true
      · rw [if_pos hsaves] at hrest
        obtain ⟨saved, hsaved, hnext⟩ := bind_eq_ok.mp hrest
        obtain ⟨bytes, hbytes, rfl⟩ := map_eq_ok.mp hsaved
        cases hnext
        exact ⟨rfl, rfl, rfl, rfl, rfl, rfl, rfl, fun _ => ⟨bytes, hbytes, rfl⟩⟩
      · rw [if_neg hsaves] at hrest
        cases hrest
        exact ⟨rfl, rfl, rfl, rfl, rfl, rfl, rfl, fun h => absurd h hsaves⟩
    · rw [himproves, if_neg hless] at hrest
      cases hrest
      rw [if_neg hless]
      exact ⟨rfl, rfl, rfl, rfl, rfl, rfl, rfl, rfl⟩

lemma getElem?_last {β : Type} (x : β) (xs : List β) : (x :: xs)[xs.length]? = some (xs.getLastD x) := by
  induction xs generalizing x with
  | nil => rfl
  | cons y rest ih => rw [List.length_cons, List.getElem?_cons_succ, ih, List.getLastD_cons]

/-- One more round of a run. -/
theorem follows_epoch (hrounds : Rounds workers first start rounds job)
    (h : Follows s first rounds job state)
    (hepoch : Training.epoch s workers (rounds.length + 1) state = (notices, .ok next)) :
    ∃ b job', Rounds workers first start (rounds ++ [b]) job' ∧
      Follows s first (rounds ++ [b]) job' next := by
  obtain ⟨payloads, b, hpayloads, hresult, hmaster, hbroadcast, htrain, hvalid, hcases⟩ :=
    epoch_eq_ok hepoch
  obtain ⟨moved, gradients, hgradients, hmove, hb, hstate⟩ := round_eq_ok h.master hresult
  rw [h.broadcast] at hpayloads
  have hround := Rounds.round hrounds hpayloads hgradients hmove
  rw [← hb] at hround
  obtain ⟨hbest, hleast⟩ := bestEpoch_append (errorsOf rounds) (epochError b.totals)
  rw [← errorsOf_append, length_errorsOf] at hbest
  rw [← errorsOf_append] at hleast
  have hlength : (rounds ++ [b]).length = rounds.length + 1 := by
    rw [List.length_append, List.length_singleton]
  have hmasterState : next.master.state = .aggregating moved ((rounds ++ [b]).length + 1) := by
    rw [hmaster, hstate, hlength]
  have hlast : next.broadcast = (rounds ++ [b]).getLastD first := by
    rw [hbroadcast, List.getLastD_concat]
  have htrainErrors : next.history.trainErrors =
      (rounds ++ [b]).map (·.totals.meanTrainError) := by
    rw [htrain, h.trainErrors, List.map_append, List.map_singleton]
  have hvalidErrors : next.history.validationErrors =
      (rounds ++ [b]).map (·.totals.meanValidationError) := by
    rw [hvalid, h.validationErrors, List.map_append, List.map_singleton]
  rw [h.least] at hcases
  refine ⟨b, moved, hround, ?_⟩
  by_cases hless : Binary.less (epochError b.totals) (leastError (errorsOf rounds)) = true
  · -- the least error so far: what is stored is the broadcast before this round, not its own
    rw [if_pos hless] at hcases hbest hleast
    obtain ⟨hiteration, herror, hpatience, hsaved⟩ := hcases
    refine ⟨hmasterState, hlast, htrainErrors, hvalidErrors, ?_, ?_, ?_, fun hsaves k hk => ?_⟩
    · rw [hiteration, hbest]
    · rw [herror, hleast]
    · rw [hpatience, hbest, hlength, Nat.zero_add]
    · obtain ⟨bytes, hbytes, hnext⟩ := hsaved hsaves
      have hplace : k = rounds.length := by omega
      subst hplace
      refine ⟨rounds.getLastD first, bytes, ?_, h.broadcast ▸ hbytes, hnext⟩
      rw [← List.cons_append, List.getElem?_append_left (by simp)]
      exact getElem?_last first rounds
  · rw [if_neg hless] at hcases hbest hleast
    obtain ⟨hiteration, herror, hpatience, hsaved⟩ := hcases
    refine ⟨hmasterState, hlast, htrainErrors, hvalidErrors, ?_, ?_, ?_, fun hsaves k hk => ?_⟩
    · rw [hiteration, hbest, h.best]
    · rw [herror, hleast]
    · have hcount := h.patience
      rw [hpatience, hbest, hlength]
      omega
    · rw [hbest] at hk
      obtain ⟨b', bytes, hb', hbytes, hstate'⟩ := h.saved hsaves k hk
      refine ⟨b', bytes, ?_, hbytes, hsaved.trans hstate'⟩
      have hlt := (List.getElem?_eq_some_iff.mp hb').1
      rwa [← List.cons_append, List.getElem?_append_left hlt]

/-- A run with rounds left takes one, and goes on unless the patience is used up. -/
lemma epochs_eq_ok {left number : Nat} {final : RunState}
    (hrun : Training.epochs s workers (left + 1) number state = (notices, .ok final)) :
    ∃ made next, Training.epoch s workers number state = (made, .ok next) ∧
      (Training.isOver (s.training.value .patience) next.patience = .ok true ∧ final = next ∨
        Training.isOver (s.training.value .patience) next.patience = .ok false ∧ ∃ more,
          Training.epochs s workers left (number + 1) next = (more, .ok final)) := by
  unfold Training.epochs at hrun
  cases hepoch : Training.epoch s workers number state with
  | mk made result =>
    rw [hepoch] at hrun
    cases result with
    | error e => cases (Prod.mk.inj hrun).2
    | ok next =>
      refine ⟨made, next, rfl, ?_⟩
      dsimp only at hrun
      cases hstop : Training.isOver (s.training.value .patience) next.patience with
      | error e =>
        rw [hstop] at hrun
        cases (Prod.mk.inj hrun).2
      | ok stops =>
        rw [hstop] at hrun
        cases stops with
        | true =>
          cases hrun
          exact Or.inl ⟨rfl, rfl⟩
        | false => exact Or.inr ⟨rfl, _, Prod.ext rfl (Prod.mk.inj hrun).2⟩

/-- The rounds that a run adds: they go on while the patience lasts, and end when it is used up or
when no rounds are left. -/
theorem follows_epochs {left : Nat} {final : RunState}
    (hrounds : Rounds workers first start rounds job) (h : Follows s first rounds job state)
    (hrun : Training.epochs s workers left (rounds.length + 1) state = (notices, .ok final)) :
    ∃ more last, Rounds workers first start (rounds ++ more) last ∧
      Follows s first (rounds ++ more) last final ∧ more.length ≤ left ∧
      (∀ e, rounds.length < e → e < (rounds ++ more).length →
        Training.isOver (s.training.value .patience)
          (e - bestEpoch ((errorsOf (rounds ++ more)).take e)) = .ok false) ∧
      (more.length = left ∨ 1 ≤ more.length ∧ Training.isOver (s.training.value .patience)
        ((rounds ++ more).length - bestEpoch (errorsOf (rounds ++ more))) = .ok true) := by
  -- on the epochs that are left, with `Follows` as the invariant over all rounds so far
  induction left generalizing rounds job state notices with
  | zero =>
    cases hrun
    rw [← List.append_nil rounds] at hrounds h
    refine ⟨[], job, hrounds, h, le_rfl, fun e he he' => ?_, Or.inl rfl⟩
    rw [List.append_nil] at he'
    omega
  | succ left ih =>
    obtain ⟨made, next, hepoch, hcases⟩ := epochs_eq_ok hrun
    obtain ⟨b, job', hrounds', h'⟩ := follows_epoch hrounds h hepoch
    have hlength : (rounds ++ [b]).length = rounds.length + 1 := by
      rw [List.length_append, List.length_singleton]
    have hpatience : next.patience =
        (rounds ++ [b]).length - bestEpoch (errorsOf (rounds ++ [b])) := by
      have hcount := h'.patience
      omega
    rw [hpatience] at hcases
    rcases hcases with ⟨hstop, rfl⟩ | ⟨hgo, more, hmore⟩
    · refine ⟨[b], job', hrounds', h', by simp, fun e he he' => ?_, Or.inr ⟨le_rfl, hstop⟩⟩
      rw [hlength] at he'
      omega
    · rw [← hlength] at hmore
      obtain ⟨later, last, hrounds'', h'', hleft, hbefore, hend⟩ := ih hrounds' h' hmore
      have hsplit : rounds ++ [b] ++ later = rounds ++ b :: later := by
        rw [List.append_assoc, List.singleton_append]
      rw [hsplit] at hrounds'' h'' hbefore hend
      refine ⟨b :: later, last, hrounds'', h'', ?_, fun e he he' => ?_, ?_⟩
      · rw [List.length_cons]
        omega
      · by_cases hnext : e = rounds.length + 1
        · have htake : (errorsOf (rounds ++ b :: later)).take e = errorsOf (rounds ++ [b]) := by
            unfold errorsOf
            rw [← List.map_take, ← hsplit, hnext, ← hlength, List.take_left]
          rw [htake, hnext, ← hlength]
          exact hgo
        · exact hbefore e (by omega) he'
      · rcases hend with hall | ⟨-, hend⟩
        · left
          rw [List.length_cons, hall]
        · exact Or.inr ⟨by simp, hend⟩

end Epochs

end WideDeep.Proofs
