import Mathlib.Tactic
import WideDeep.Proofs.ResumedTraining
import WideDeep.Proofs.TrainingRuns

/-!
# Runs that start from a checkpoint of their own task

A run leaves a checkpoint together with the error that was measured on its weights. A later run of the
same task recovers these weights, so its first epoch measures the same error again, and what it
leaves in the place of the checkpoint is no worse, whatever its epochs, patience and optimizer are.
-/

namespace WideDeep.Proofs
open Binary

section Measuring

variable {α δ : Type} [Scalar α] [Scalar δ] [Precision α δ]

/-- The same payload for another iteration. -/
def stamped (i : Int) (p : Payload δ) : Payload δ :=
  { p with iteration := i }

lemma compute_stamped (w : Worker α) (weights : Option (Parameters α)) (i j : Int) :
    w.compute δ weights i = (w.compute δ weights j).map (stamped (i + 1)) := by
  unfold Worker.compute
  cases weights with
  | none => rfl
  | some ps =>
    dsimp only
    cases (Model.blank w.layout).load ps with
    | error e => rfl
    | ok m =>
      simp only [ok_bind]
      cases Worker.checkData w.layout w.train with
      | error e => rfl
      | ok u =>
        cases w.validation with
        | none => rfl
        | some d =>
          simp only [ok_bind]
          cases Worker.checkData w.layout d <;> rfl

omit [Scalar α] [Precision α δ] in
lemma combine_stamped (i : Int) (p q : Payload δ) :
    (stamped i p).combine (stamped i q) = (p.combine q).map (stamped i) := by
  unfold Payload.combine stamped
  dsimp only
  cases Parameters.difference p.gradients.names q.gradients.names with
  | cons n rest => rfl
  | nil =>
    cases Payload.addGradients p.gradients q.gradients with
    | error e => rfl
    | ok g => simp [bind, Except.bind, pure, Except.pure, Except.map]

lemma combineAll_stamped (i : Int) (p : Payload δ) (rest : List (Payload δ)) :
    Payload.combineAll (stamped i p) (rest.map (stamped i)) =
      (Payload.combineAll p rest).map (stamped i) := by
  unfold Payload.combineAll
  induction rest generalizing p with
  | nil => rfl
  | cons q rest ih =>
    rw [List.map_cons, List.foldlM_cons, List.foldlM_cons, combine_stamped]
    cases p.combine q with
    | error e => rfl
    | ok r => exact ih r

/-- The error of weights: that of an epoch in which workers compute on them. -/
def monitoredError (workers : List (Worker Float32)) (weights : Parameters Float32) :
    Except Error Float := do
  let payloads ← workers.mapM fun w => w.compute Float (some weights) 0
  let sum ← Job.combined 0 payloads
  return epochError sum.totals

/-- A round reports the error of the weights that its workers were given. -/
theorem monitoredError_of_round {workers : List (Worker Float32)} {weights : Parameters Float32}
    {i : Int} {k : Nat} {job : Job Float32} {payloads : List (Payload Float)} {totals : Totals Float}
    {gradients : Parameters Float32}
    (hpayloads : (workers.mapM fun w => w.compute Float (some weights) i) = .ok payloads)
    (hsum : stepGradients job k payloads = .ok (totals, gradients)) :
    monitoredError workers weights = .ok (epochError totals) := by
  have hagain : (workers.mapM fun w => w.compute Float (some weights) 0) =
      .ok (payloads.map (stamped 1)) := by
    refine mapM_eq_ok.mpr (List.forall₂_map_right_iff.mpr ((mapM_eq_ok.mp hpayloads).imp ?_))
    intro w p hp
    rw [compute_stamped w (some weights) 0 i, hp]
    rfl
  obtain ⟨sum, hcombined, hrest⟩ := bind_eq_ok.mp hsum
  obtain ⟨_, -, htotals⟩ := bind_eq_ok.mp hrest
  have hsame : sum.totals = totals := congrArg Prod.fst (Except.ok.inj htotals)
  unfold monitoredError
  rw [hagain, ok_bind]
  cases payloads with
  | nil => cases hcombined
  | cons first rest =>
    have hstamped : Job.combined 0 ((first :: rest).map (stamped 1)) = .ok (stamped 1 sum) := by
      change Payload.combineAll (stamped 1 first) (rest.map (stamped 1)) = _
      change Payload.combineAll first rest = .ok sum at hcombined
      rw [combineAll_stamped, hcombined]
      rfl
    rw [hstamped, ← hsame]
    rfl

/-- Each broadcast of a run reports the error of the weights of the broadcast before it. -/
theorem monitoredError_of_rounds {workers : List (Worker Float32)} {first : Broadcast Float32 Float}
    {start job : Job Float32} {rounds : List (Broadcast Float32 Float)}
    (h : Rounds workers first start rounds job) : ∀ (k : Nat) (before b : Broadcast Float32 Float),
      (first :: rounds)[k]? = some before → rounds[k]? = some b →
        monitoredError workers before.weights = .ok (epochError b.totals) := by
  induction h with
  | none =>
    intro k before b _ hb
    cases hb
  | @round earlier job next payloads totals gradients _ computed summed _ ih =>
    intro k before b hbefore hb
    rw [List.getElem?_append] at hb
    split at hb
    · rename_i hk
      rw [← List.cons_append, List.getElem?_append_left (by simp; omega)] at hbefore
      exact ih k before b hbefore hb
    · obtain ⟨hlt, rfl⟩ := List.getElem?_eq_some_iff.mp hb
      rw [List.length_singleton] at hlt
      have hk : k = earlier.length := by omega
      subst hk
      rw [← List.cons_append, List.getElem?_append_left (by simp), getElem?_last] at hbefore
      cases hbefore
      have herror := monitoredError_of_round computed summed
      simpa using herror

end Measuring

section Passing

variable {s : RunSetup} {workers : List (Worker Float32)} {begun state final : RunState} {n : Nat}
  {notices : List Notice}

/-- The states that a run passes, each behind a number of epochs. -/
inductive Passes (s : RunSetup) (workers : List (Worker Float32)) (begun : RunState) :
    Nat → RunState → Prop
  | begins : Passes s workers begun 0 begun
  | epoch {n : Nat} {state next : RunState} {notices : List Notice}
      (earlier : Passes s workers begun n state)
      (made : Training.epoch s workers (n + 1) state = (notices, .ok next)) :
      Passes s workers begun (n + 1) next

/-- Epochs that end well lead to a state that the run passes. If there were any to be made, one has
been made. -/
lemma passes_of_epochs {left : Nat} (h : Passes s workers begun n state)
    (hrun : Training.epochs s workers left (n + 1) state = (notices, .ok final)) :
    ∃ made, Passes s workers begun (n + made) final ∧ (made = left ∨ 1 ≤ made) := by
  induction left generalizing n state notices with
  | zero =>
    cases hrun
    exact ⟨0, h, Or.inl rfl⟩
  | succ left ih =>
    obtain ⟨_, next, hepoch, hcases⟩ := epochs_eq_ok hrun
    have hnext := h.epoch hepoch
    rcases hcases with ⟨-, rfl⟩ | ⟨-, _, hmore⟩
    · exact ⟨1, hnext, Or.inr le_rfl⟩
    · obtain ⟨made, hmade, -⟩ := ih hnext hmore
      exact ⟨made + 1, by rwa [Nat.add_comm made, ← Nat.add_assoc], Or.inr (Nat.le_add_left 1 made)⟩

/-- What a run has done so far follows from its rounds, and nothing is stored before an epoch is the
best one. -/
theorem follows_of_passes {first : Broadcast Float32 Float} {start : Job Float32} {m : Master}
    (hstate : m.state = .aggregating start 1)
    (h : Passes s workers ⟨m, first, History.initial, 0, none⟩ n state) :
    ∃ rounds job, rounds.length = n ∧ Rounds workers first start rounds job ∧
      Follows s first rounds job state ∧
      (bestEpoch (errorsOf rounds) = 0 → state.saved = none) := by
  induction h with
  | begins => exact ⟨[], start, rfl, Rounds.none, follows_nil hstate, fun _ => rfl⟩
  | epoch _ made ih =>
    obtain ⟨rounds, job, rfl, hrounds, hfollows, hunsaved⟩ := ih
    obtain ⟨b, job', hrounds', hfollows'⟩ := follows_epoch hrounds hfollows made
    obtain ⟨_, _, -, -, -, -, -, -, hcases⟩ := epoch_eq_ok made
    refine ⟨rounds ++ [b], job', List.length_append, hrounds', hfollows', fun hzero => ?_⟩
    rw [← hfollows'.best] at hzero
    split at hcases
    · rw [hcases.1] at hzero
      cases hzero
    · rw [hcases.1, hfollows.best] at hzero
      rw [hcases.2.2.2]
      exact hunsaved hzero

/-- At some moment of a run its checkpoint are these bytes, which were stored with this error. The run
may have gone on from there, to its end or to a failure. -/
def Keeps (s : RunSetup) (train : Frame) (valid : Option Frame) (bytes : Bytes) (error : Float) :
    Prop :=
  ∃ workers m first n state, Employs s train valid workers ∧
    (Master.make s.config s.training none s.tape s.checkpoint).start = .ok m ∧
    (m.round []).result = .ok first ∧
    Passes s workers ⟨(m.round []).master, first, History.initial, 0, none⟩ n state ∧
    state.saved = some bytes ∧ state.history.bestError = error

/-- A run that ends well keeps the checkpoint that it returns. -/
theorem keeps_of_run {train : Frame} {valid : Option Frame} {result : RunResult} {bytes : Bytes}
    (h : Training.run s train valid = (notices, .ok result)) (hsaved : result.saved = some bytes) :
    Keeps s train valid bytes result.history.bestError := by
  obtain ⟨workers, _, _, hworkers, hruns⟩ := run_eq_ok h
  obtain ⟨m, first, _, _, final, hstart, hfirst, -, hepochs, -, hhistory, hkept⟩ := runRounds_eq_ok hruns
  obtain ⟨made, hpasses, -⟩ := passes_of_epochs Passes.begins hepochs
  exact ⟨workers, m, first, 0 + made, final, hworkers, hstart, hfirst, hpasses,
    hkept.symm.trans hsaved, congrArg History.bestError hhistory.symm⟩

/-- A run that ends well has made rounds, at least one if it has epochs to make. Its history tells the
errors of the rounds, and it has stored nothing unless one of them is the best. -/
theorem rounds_of_run {train : Frame} {valid : Option Frame} {result : RunResult}
    (h : Training.run s train valid = (notices, .ok result)) :
    ∃ workers m first start rounds last epochs, Employs s train valid workers ∧
      (Master.make s.config s.training none s.tape s.checkpoint).start = .ok m ∧
      (m.round []).result = .ok first ∧ Begins s first start ∧
      Rounds workers first start rounds last ∧ s.training.integerOf .epochs = .ok epochs ∧
      (1 ≤ epochs → rounds ≠ []) ∧
      result.history = ⟨rounds.map (·.totals.meanTrainError),
        rounds.map (·.totals.meanValidationError), bestEpoch (errorsOf rounds),
        leastError (errorsOf rounds)⟩ ∧
      (bestEpoch (errorsOf rounds) = 0 → result.saved = none) := by
  obtain ⟨workers, _, _, hworkers, hruns⟩ := run_eq_ok h
  obtain ⟨m, first, count, _, final, hstart, hfirst, hcount, hepochs, -, hhistory, hsaved⟩ :=
    runRounds_eq_ok hruns
  obtain ⟨epochs, hconfigured, rfl⟩ := roundCount_eq_ok hcount
  obtain ⟨start, hbegins, -, -⟩ := begins_of_start hstart hfirst
  have hstate : (m.round []).master.state = .aggregating start 1 := by
    obtain ⟨m', hstart', -, hstate⟩ := hbegins
    cases hstart.symm.trans hstart'
    exact hstate
  obtain ⟨made, hpasses, hmade⟩ := passes_of_epochs Passes.begins hepochs
  obtain ⟨rounds, last, hlength, hrounds, hfollows, hunsaved⟩ := follows_of_passes hstate hpasses
  refine ⟨workers, m, first, start, rounds, last, epochs, hworkers, hstart, hfirst, hbegins, hrounds,
    hconfigured, fun hone hnil => ?_, ?_, fun hzero => hsaved.trans (hunsaved hzero)⟩
  · rw [hnil, List.length_nil] at hlength
    omega
  · rw [hhistory, ← hfollows.trainErrors, ← hfollows.validationErrors, ← hfollows.best,
      ← hfollows.least]

/-- The first round reports the error of the weights that the run began with. -/
lemma error_of_first {first b : Broadcast Float32 Float} {start job : Job Float32}
    {rounds : List (Broadcast Float32 Float)} {error : Float}
    (hrounds : Rounds workers first start rounds job)
    (herror : monitoredError workers first.weights = .ok error) (hb : rounds.head? = some b) :
    epochError b.totals = error := by
  have hmeasured := monitoredError_of_rounds hrounds 0 first b rfl (by rwa [← List.head?_eq_getElem?])
  exact (Except.ok.inj (herror.symm.trans hmeasured)).symm

/-- The error that is kept with a checkpoint counts, and it is the one of the weights that the
checkpoint holds. -/
theorem keeps_measured {train : Frame} {valid : Option Frame} {bytes : Bytes} {error : Float}
    (hsaves : s.saves = true) (h : Keeps s train valid bytes error) :
    ∃ workers weights, Employs s train valid workers ∧ Holds s bytes weights ∧
      monitoredError workers weights = .ok error ∧ Counts error = true := by
  obtain ⟨workers, m, first, n, state, hworkers, hstart, hfirst, hpasses, hsaved, rfl⟩ := h
  obtain ⟨start, ⟨m', hstart', -, hstate⟩, hlayout, hweights⟩ := begins_of_start hstart hfirst
  cases hstart.symm.trans hstart'
  obtain ⟨rounds, job, -, hrounds, hfollows, hunsaved⟩ := follows_of_passes hstate hpasses
  obtain ⟨k, hbest⟩ : ∃ k, bestEpoch (errorsOf rounds) = k + 1 := by
    refine Nat.exists_eq_succ_of_ne_zero fun hzero => ?_
    rw [hunsaved hzero] at hsaved
    cases hsaved
  obtain ⟨b, stored, hb, hstored, hkept⟩ := hfollows.saved hsaves k hbest
  cases hsaved.symm.trans hkept
  obtain ⟨-, hholds⟩ := holds_of_stored hlayout hweights hrounds hb hstored
  obtain ⟨⟨least, hleast, hcounts⟩, -⟩ := bestEpoch_eq_succ.mp hbest
  rw [hfollows.least, leastError_of_best hbest hleast]
  unfold errorsOf at hleast
  rw [List.getElem?_map] at hleast
  obtain ⟨next, hnext, rfl⟩ := Option.map_eq_some_iff.mp hleast
  have herror := monitoredError_of_rounds hrounds k b next hb hnext
  exact ⟨workers, b.weights, hworkers, hholds, herror, (isLeast_iff.mp hcounts).1⟩

end Passing

section Tasks

variable {s s' : RunSetup} {train : Frame} {valid : Option Frame}

/-- Two runs with the same model, columns of tags and weights, tags and number of workers. -/
structure SameTask (s s' : RunSetup) : Prop where
  config : s'.config = s.config
  weight : s'.weight = s.weight
  target : s'.training.value .targetColumn = s.training.value .targetColumn
  positive : s'.training.value .posTags = s.training.value .posTags
  negative : s'.training.value .negTags = s.training.value .negTags
  workers : s'.training.value .numWorkers = s.training.value .numWorkers

/-- The workers of two runs of one task on the same records are the same. -/
lemma employs_unique (h : SameTask s s') {workers workers' : List (Worker Float32)}
    (hw : Employs s train valid workers) (hw' : Employs s' train valid workers') :
    workers' = workers := by
  obtain ⟨assembler, labels, trainData, validData, hassembler, hlabels, htrain, hvalid, hmake⟩ := hw
  obtain ⟨assembler', labels', trainData', validData', hassembler', hlabels', htrain', hvalid',
    hmake'⟩ := hw'
  have hlabelling : Training.labelling s' = Training.labelling s := by
    unfold Training.labelling
    rw [h.positive, h.negative, h.target, h.weight]
  have hworkers : Training.makeWorkers s' trainData validData =
      Training.makeWorkers s trainData validData := by
    unfold Training.makeWorkers
    rw [h.workers, h.config]
  rw [h.config] at hassembler'
  cases hassembler.symm.trans hassembler'
  rw [hlabelling] at hlabels'
  cases hlabels.symm.trans hlabels'
  cases htrain.symm.trans htrain'
  cases hvalid.symm.trans hvalid'
  rw [hworkers] at hmake'
  exact Except.ok.inj (hmake'.symm.trans hmake)

/-- The first round of continuous training brings the weights of a saved model. -/
lemma round_of_saved {m : Model Float32} {bytes container : Bytes} (hwide : s.config.wide.Nodup)
    (hembed : s.config.embed.Nodup) (hlayout : s.config.layout = .ok m.layout)
    (hwrite : ModelFile.write Stored.plain ModelFile.currentVersion (.ok s.config.norm)
      s.config.columns m = .ok bytes)
    (hcontainer : container = bytes ∨ Gzip.expand container = .ok bytes)
    {path : String} (hpath : s.training.modelPlace? = some (.text path))
    (hcontinuous : s.training.isContinuous = true) (hcheckpoint : s.checkpoint = .file container)
    {master : Master}
    (hstart : (Master.make s.config s.training none s.tape s.checkpoint).start = .ok master) :
    (master.round []).result = .ok ⟨m.parameters, Totals.zero, 0⟩ := by
  obtain ⟨-, layout, optimizer, source, hown, -, -, rfl⟩ := start_eq_ok hstart
  cases Except.ok.inj (hown.symm.trans hlayout)
  have hdistinct := distinct_of_make (plan_eq_ok.mp hlayout).1
  have hloaded := load_saved hwide hlayout hwrite hcontainer hembed
  have hplace : s.training.hasOddPlace = false := by
    rw [TrainingConfig.hasOddPlace, hpath]
    rfl
  have hself : Model.ofParameters m.layout (storedWeights Stored.plain m) = m := by
    rw [storedWeights_plain, ofParameters_self hdistinct]
  obtain ⟨awaiting, hawaiting⟩ : ∃ awaiting : Master, awaiting =
    { Master.make s.config s.training none s.tape s.checkpoint with
      state := .awaiting ⟨Model.blank m.layout, optimizer⟩ source } := ⟨_, rfl⟩
  have hrecover : awaiting.recover (Model.blank m.layout) =
      ([], .ok (some (Model.ofParameters m.layout (storedWeights Stored.plain m)))) := by
    rw [hawaiting]
    exact recover_of_recovers
      ⟨hplace, same_restored hdistinct, container, hcheckpoint, congrArg Prod.snd hloaded⟩
  rw [hself] at hrecover
  have hfirst := firstModel_of_recover source (by rw [hawaiting]; exact hcontinuous) hrecover
  rw [ok_bind] at hfirst
  rw [← hawaiting, round_of_firstModel (by rw [hawaiting]) [] hfirst]

/-- What stands in the place of a checkpoint behind a run: the file of before if the run has stored
nothing, and else a file with the bytes that were stored. -/
def LeftBehind (before : Bytes) (saved : Option Bytes) (file : Bytes) : Prop :=
  match saved with
  | none => file = before
  | some bytes => file = bytes ∨ Gzip.expand file = .ok bytes

/-- A file that holds weights is loaded as a model with their error. -/
lemma measured_of_holds {bytes file : Bytes} {weights : Parameters Float32} {error : Float}
    {workers : List (Worker Float32)} (hembed : s.config.embed.Nodup) (hwide : s.config.wide.Nodup)
    (h : Holds s bytes weights) (hfile : file = bytes ∨ Gzip.expand file = .ok bytes)
    (herror : monitoredError workers weights = .ok error) :
    ∃ loaded, StoredModel.load true file = ([], .ok loaded) ∧
      monitoredError workers loaded.model.parameters = .ok error := by
  obtain ⟨loaded, hloaded, hweights⟩ := load_of_holds hembed hwide h hfile
  exact ⟨loaded, hloaded, by rw [hweights]; exact herror⟩

/-- A later run of the same task that starts from a checkpoint never worsens it. The checkpoint was
kept with an error at some moment of a first run, and the configuration embeds its wide columns. If
the later run makes epochs at all, the first error of its history is that error exactly, and the file
that it leaves is loaded as a model whose error on the same records is not above it. -/
theorem run_restarted {columns : List ColumnRecord} {options : ModelOptions}
    (hmake : ModelConfig.make columns options = .ok s.config) (hdefault : options.embed = .null)
    (hsaves : s.saves = true) {bytes : Bytes} {error : Float}
    (hkept : Keeps s train valid bytes error) (hsame : SameTask s s') {container : Bytes}
    (hcontainer : container = bytes ∨ Gzip.expand container = .ok bytes) {path : String}
    (hpath : s'.training.modelPlace? = some (.text path))
    (hcontinuous : s'.training.isContinuous = true) (hcheckpoint : s'.checkpoint = .file container)
    (hsaves' : s'.saves = true) {notices : List Notice} {result : RunResult}
    (hrun : Training.run s' train valid = (notices, .ok result)) :
    ∃ workers first start rounds last epochs,
      Employs s' train valid workers ∧ Begins s' first start ∧
      Rounds workers first start rounds last ∧ s'.training.integerOf .epochs = .ok epochs ∧
      result.history = ⟨rounds.map (·.totals.meanTrainError),
        rounds.map (·.totals.meanValidationError), bestEpoch (errorsOf rounds),
        leastError (errorsOf rounds)⟩ ∧
      (1 ≤ epochs → (errorsOf rounds).head? = some error) ∧
      ∀ file, LeftBehind container result.saved file → ∃ loaded after,
        StoredModel.load true file = ([], .ok loaded) ∧
        monitoredError workers loaded.model.parameters = .ok after ∧
        Counts error = true ∧ Counts after = true ∧ less error after = false := by
  have hwide := wide_nodup_of_make hmake
  have hembed : s.config.embed.Nodup := embed_of_default hmake hdefault ▸ hwide
  have hwide' : s'.config.wide.Nodup := hsame.config ▸ hwide
  have hembed' : s'.config.embed.Nodup := hsame.config ▸ hembed
  obtain ⟨workers, weights, hworkers, hholds, herror, hcounts⟩ := keeps_measured hsaves hkept
  -- the later run, with the workers and the weights of the first one
  obtain ⟨workers', m, first, start, rounds, last, epochs, hworkers', hstart, hfirst, hbegins, hrounds,
    hconfigured, hsome, hhistory, hunsaved⟩ := rounds_of_run hrun
  cases employs_unique hsame hworkers hworkers'
  have hrecovered : first.weights = weights := by
    obtain ⟨model, hlayout, rfl, hwrite, -⟩ := hholds
    rw [← hsame.config] at hlayout hwrite
    have hround := round_of_saved hwide' hembed' hlayout hwrite hcontainer hpath hcontinuous
      hcheckpoint hstart
    rw [Except.ok.inj (hfirst.symm.trans hround)]
  have hhead : rounds ≠ [] → (errorsOf rounds).head? = some error := by
    intro hne
    obtain ⟨b, rest, rfl⟩ := List.exists_cons_of_ne_nil hne
    rw [← hrecovered] at herror
    rw [← error_of_first hrounds herror rfl]
    rfl
  refine ⟨workers, first, start, rounds, last, epochs, hworkers', hbegins, hrounds, hconfigured,
    hhistory, fun hone => hhead (hsome hone), fun file hfile => ?_⟩
  cases hstored : result.saved with
  | none =>
    -- nothing was stored: the file is the one that the run started from
    rw [hstored] at hfile
    cases hfile
    obtain ⟨loaded, hloaded, hmeasured⟩ := measured_of_holds hembed hwide hholds hcontainer herror
    exact ⟨loaded, error, hloaded, hmeasured, hcounts, hcounts, less_self error⟩
  | some stored =>
    rw [hstored] at hfile
    obtain ⟨workers₂, weights₂, hworkers₂, hholds₂, hmeasured₂, hcounts₂⟩ :=
      keeps_measured hsaves' (keeps_of_run hrun hstored)
    cases employs_unique ⟨rfl, rfl, rfl, rfl, rfl, rfl⟩ hworkers' hworkers₂
    obtain ⟨loaded, hloaded, hmeasured⟩ := measured_of_holds hembed' hwide' hholds₂ hfile hmeasured₂
    have hbest : bestEpoch (errorsOf rounds) ≠ 0 := fun hzero => by
      rw [hunsaved hzero] at hstored
      cases hstored
    have hne : rounds ≠ [] := by
      rintro rfl
      exact hbest rfl
    -- the error of the first epoch is among those of which the least was kept
    refine ⟨loaded, result.history.bestError, hloaded, hmeasured, hcounts, hcounts₂, ?_⟩
    rw [hhistory]
    exact not_less_leastError hbest (List.mem_of_head? (hhead hne))

end Tasks

section Sample

/-- A run of the task of `shortRun`, with two epochs and a small rate, from a checkpoint. -/
def laterRun (checkpoint : Bytes) : RunSetup :=
  { shortRun with
    training := (((shortRun.training.set .continuousTraining (.bool true)).set .checkpointPath
      (.text "model")).set .learningRate (.real 0.01)).set .epochs (.int 2)
    checkpoint := .file checkpoint }

/-- Whether a run stores a checkpoint from which another one ends with its second epoch as the best,
and with another checkpoint. -/
def restartImproves : Except Error RunResult → Bool
  | .ok result =>
    result.saved.any fun bytes =>
      match (Training.run (laterRun bytes) shortFrame none).2 with
      | .ok later => later.history.bestIteration = 2 && later.saved ≠ some bytes
      | .error _ => false
  | .error _ => false

set_option maxRecDepth 20000 in
lemma restartImproves_short :
    restartImproves (Training.run shortRun shortFrame none).2 = true := by
  decide +kernel

/-- The later run begins with the error of the checkpoint and leaves a better one. -/
theorem run_restarted_short : ∃ notices result bytes notices' result' workers rounds,
    Training.run shortRun shortFrame none = (notices, .ok result) ∧ result.saved = some bytes ∧
    Training.run (laterRun bytes) shortFrame none = (notices', .ok result') ∧
    result'.history.bestIteration = 2 ∧ result'.saved ≠ some bytes ∧
    Employs (laterRun bytes) shortFrame none workers ∧
    result'.history.trainErrors = rounds.map (·.totals.meanTrainError) ∧
    (errorsOf rounds).head? = some result.history.bestError ∧
    ∀ file, LeftBehind bytes result'.saved file → ∃ loaded after,
      StoredModel.load true file = ([], .ok loaded) ∧
      monitoredError workers loaded.model.parameters = .ok after ∧
      less result.history.bestError after = false := by
  have hends := restartImproves_short
  cases hrun : Training.run shortRun shortFrame none with
  | mk notices outcome =>
    rw [hrun] at hends
    cases outcome with
    | error e => cases hends
    | ok result =>
      dsimp only [restartImproves] at hends
      cases hsaved : result.saved with
      | none =>
        rw [hsaved] at hends
        cases hends
      | some bytes =>
        rw [hsaved, Option.any_some] at hends
        cases hlater : Training.run (laterRun bytes) shortFrame none with
        | mk notices' outcome' =>
          rw [hlater] at hends
          cases outcome' with
          | error e => cases hends
          | ok result' =>
            obtain ⟨hbest, hother⟩ := Bool.and_eq_true_iff.mp hends
            have hsame : SameTask shortRun (laterRun bytes) := ⟨rfl, rfl, rfl, rfl, rfl, rfl⟩
            obtain ⟨workers, -, -, rounds, -, epochs, hworkers, -, -, hepochs, hhistory, hfirst, hfile⟩ :=
              run_restarted make_sky rfl rfl (keeps_of_run hrun hsaved) hsame (Or.inl rfl) rfl rfl rfl
                rfl hlater
            have hone : 1 ≤ epochs := by
              cases hepochs
              decide
            refine ⟨notices, result, bytes, notices', result', workers, rounds, rfl, hsaved, hlater,
              of_decide_eq_true hbest, of_decide_eq_true hother, hworkers,
              congrArg History.trainErrors hhistory, hfirst hone, fun file hleft => ?_⟩
            obtain ⟨loaded, after, hloaded, hmeasured, -, -, hless⟩ := hfile file hleft
            exact ⟨loaded, after, hloaded, hmeasured, hless⟩

end Sample

end WideDeep.Proofs
