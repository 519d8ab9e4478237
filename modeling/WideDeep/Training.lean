import WideDeep.Evaluation
import WideDeep.Labelling
import WideDeep.Master
import WideDeep.Worker

/-!
# Training

A training run labels the records, splits them among workers, and lets a master lead rounds until
the error has not improved for some rounds or the rounds are used up. The model with the least error
so far is kept as checkpoint.
-/

namespace WideDeep

/-- What a run records round by round. -/
structure History where
  trainErrors : List Float
  validationErrors : List Float
  bestIteration : Nat
  bestError : Float

namespace History

def initial : History :=
  ⟨[], [], 0, Binary.infinity false⟩

def record (h : History) (t : Totals Float) : History :=
  { h with
    trainErrors := h.trainErrors ++ [t.meanTrainError]
    validationErrors := h.validationErrors ++ [t.meanValidationError] }

def improves (h : History) (error : Float) : Bool :=
  Binary.less error h.bestError

def note (h : History) (error : Float) (epoch : Nat) : History :=
  { h with bestIteration := epoch, bestError := error }

end History

structure RunState where
  master : Master
  broadcast : Broadcast Float32 Float
  history : History
  patience : Nat
  saved : Option Bytes

structure RunSetup where
  config : ModelConfig
  training : TrainingConfig
  weight : Document
  tape : Tape
  checkpoint : Checkpoint
  saves : Bool

/-- What a run leaves: the master, the history, the evaluation on the validation records, and the
checkpoint if one was saved. -/
structure RunResult where
  master : Master
  history : History
  evaluation : Option Evaluation
  saved : Option Bytes

namespace Training

def stored (s : RunSetup) (weights : Parameters Float32) : Except Error Bytes := do
  let model ← (← s.config.build).load weights
  let bytes ← ModelFile.write Binary.Stored.plain ModelFile.currentVersion (.ok s.config.norm)
    s.config.columns model
  if s.training.hasOddPlace then throw .wrongType
  pure bytes

/-- One round: the workers compute on the broadcast, and the master aggregates. The errors belong
to the weights that the workers were given, and those are kept if the errors are the least. -/
def epoch (s : RunSetup) (workers : List (Worker Float32)) (number : Nat) (state : RunState) :
    List Notice × Except Error RunState :=
  let results := workers.mapM fun w =>
    w.compute Float (some state.broadcast.weights) state.broadcast.iteration
  match results with
  | .error e => ([], .error e)
  | .ok payloads =>
    let outcome := state.master.round payloads
    (outcome.notices, do
      let broadcast ← outcome.result
      let history := state.history.record broadcast.totals
      let monitored := broadcast.totals.monitored
      if history.improves monitored then
        let saved ←
          if s.saves then some <$> stored s state.broadcast.weights else pure state.saved
        pure ⟨outcome.master, broadcast, history.note monitored number, 0, saved⟩
      else
        pure ⟨outcome.master, broadcast, history, state.patience + 1, state.saved⟩)

/-- Whether so many rounds without improvement use up the patience. -/
def isOver (patience : Document) (rounds : Nat) : Except Error Bool :=
  patience.toNumber.map fun least => least.atMost (.int rounds)

/-- Rounds until there are none left or the patience is used up. -/
def epochs (s : RunSetup) (workers : List (Worker Float32)) :
    Nat → Nat → RunState → List Notice × Except Error RunState
  | 0, _, state => ([], .ok state)
  | left + 1, number, state =>
    match epoch s workers number state with
    | (notices, .error e) => (notices, .error e)
    | (notices, .ok state) =>
      match isOver (s.training.value .patience) state.patience with
      | .error e => (notices, .error e)
      | .ok true => (notices, .ok state)
      | .ok false =>
        let (more, r) := epochs s workers left (number + 1) state
        (notices ++ more, r)

def tags (d : Document) : Except Error (List Raw) := do
  return (← d.toItems).map fun v => Raw.text v.plain

def labelling (s : RunSetup) : Except Error Labelling := do
  let positive ← tags (s.training.value .posTags)
  let negative ← tags (s.training.value .negTags)
  pure (Labelling.make (s.training.value .targetColumn) positive negative s.weight)

/-- The number of workers: as many as configured, but no more than there are records, and one at
least. Only an integer can be the count. -/
def workerCount (configured : Number) (records : Nat) : Except Error Int :=
  let count := if (Number.int records).less configured then .int records else configured
  if (Number.int 1).less count then
    match count with
    | .int n => .ok n
    | .real _ => .error .wrongType
  else .ok 1

/-- The number of rounds; it has to fit into a machine word. -/
def roundCount (s : RunSetup) : Except Error Nat := do
  let count ← s.training.integerOf .epochs
  if 0x7fffffffffffffff < count then throw .overflow
  pure count.toNat

def makeWorkers (s : RunSetup) (train : Dataset Float32) (valid : Option (Dataset Float32)) :
    Except Error (List (Worker Float32)) := do
  let count ← workerCount (← (s.training.value .numWorkers).toNumber) train.size
  (← Worker.shares count train valid).mapM fun p =>
    Worker.make s.config p.1 p.2 Worker.defaultBatchSize

/-- Rounds from the first on, and the evaluation behind them. -/
def runRounds (s : RunSetup) (workers : List (Worker Float32))
    (valid : Option (Dataset Float32)) : List Notice × Except Error RunResult :=
  let master := Master.make s.config s.training none s.tape s.checkpoint
  match master.start with
  | .error e => ([], .error e)
  | .ok master =>
    let first := master.round []
    match first.result, roundCount s with
    | .error e, _ => (first.notices, .error e)
    | .ok _, .error e => (first.notices, .error e)
    | .ok broadcast, .ok count =>
      let (notices, r) := epochs s workers count 1
        ⟨first.master, broadcast, History.initial, 0, none⟩
      (first.notices ++ notices, do
        let state ← r
        let master ← state.master.halt
        let evaluation ←
          match valid.filter (0 < ·.size), master.model? with
          | some d, some m => some <$> Evaluation.run m d
          | _, _ => pure none
        pure ⟨master, state.history, evaluation, state.saved⟩)

def run (s : RunSetup) (train : Frame) (valid : Option Frame) :
    List Notice × Except Error RunResult :=
  match s.config.assembler, labelling s with
  | .error e, _ => ([], .error e)
  | _, .error e => ([], .error e)
  | .ok assembler, .ok labels =>
    let (notices, trainData) := labels.run assembler train
    match trainData with
    | .error e => (notices, .error e)
    | .ok trainData =>
      let (more, validData) : List Notice × Except Error (Option (Dataset Float32)) :=
        match valid with
        | some f =>
          let (more, d) := labels.run assembler f
          (more, d.map some)
        | none => ([], .ok none)
      match validData with
      | .error e => (notices ++ more, .error e)
      | .ok validData =>
        match makeWorkers s trainData validData with
        | .error e => (notices ++ more, .error e)
        | .ok workers =>
          let (rest, r) := runRounds s workers validData
          (notices ++ more ++ rest, r)

end Training

end WideDeep
