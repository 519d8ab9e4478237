import WideDeep.Aggregation
import WideDeep.Config.Model
import WideDeep.Config.Training

/-!
# The master

A master leads the rounds of a training job. The first round recovers weights from a checkpoint or
draws them, and each further round takes one step. A round that fails for want of fitting payloads
ends the job, and so does a halt.
-/

namespace WideDeep

inductive Checkpoint where
  | noPath
  | absent
  | file (bytes : Bytes)

def Checkpoint.bytes? : Checkpoint → Option Bytes
  | .file bytes => some bytes
  | _ => none

inductive MasterState where
  | uninitialized
  | awaiting (job : Job Float32) (source : Initializer)
  | aggregating (job : Job Float32) (iteration : Nat)
  | converged (job : Job Float32) (iteration : Nat)
  | failed (job : Job Float32) (iteration : Nat)

namespace MasterState

def phase : MasterState → Phase
  | uninitialized => .uninitialized
  | awaiting _ _ => .awaitingFirstRound
  | aggregating _ _ => .aggregating
  | converged _ _ => .converged
  | failed _ _ => .failed

def iteration : MasterState → Nat
  | uninitialized => 0
  | awaiting _ _ => 0
  | aggregating _ i => i
  | converged _ i => i
  | failed _ i => i

def job? : MasterState → Option (Job Float32)
  | uninitialized => none
  | awaiting j _ => some j
  | aggregating j _ => some j
  | converged j _ => some j
  | failed j _ => some j

end MasterState

structure Master where
  config : ModelConfig
  training : TrainingConfig
  initializer : Option Initializer
  tape : Tape
  checkpoint : Checkpoint
  state : MasterState

/-- What a round brings: the master behind it, notices, and a broadcast or an error. -/
structure RoundOutcome where
  master : Master
  notices : List Notice
  result : Except Error (Broadcast Float32 Float)

namespace Master

def make (config : ModelConfig) (training : TrainingConfig) (initializer : Option Initializer)
    (tape : Tape) (checkpoint : Checkpoint) : Master :=
  ⟨config, training, initializer, tape, checkpoint, .uninitialized⟩

def phase (m : Master) : Phase :=
  m.state.phase

def iteration (m : Master) : Nat :=
  m.state.iteration

def model? (m : Master) : Option (Model Float32) :=
  m.state.job?.map (·.model)

/-- The initializer in force. The configured one needs a seed. -/
def chosenInitializer (m : Master) : Except Error Initializer :=
  match m.initializer with
  | some init => .ok init
  | none => do
    let init ← Initializer.make (m.training.value .initializer) (m.training.value .initMin)
      (m.training.value .initMax)
    m.training.checkSeed
    pure init

/-- Build the model, the initializer and the optimizer, in this order. -/
def start (m : Master) : Except Error Master := do
  if m.phase ≠ .uninitialized then throw (.initRefused m.phase)
  let model ← m.config.build
  let source ← m.chosenInitializer
  let name ← m.training.textOf .optimizer
  let optimizer ← Optimizer.make name (m.training.value .learningRate) model.layout.l2.value
  pure { m with state := .awaiting ⟨model, optimizer⟩ source }

def restore (model : Model Float32) (bytes : Bytes) : Except Error (Model Float32) := do
  let stored ← (StoredModel.load true bytes).2
  model.update stored.model

/-- Recover the weights from the checkpoint. A file that is absent, malformed or of another model
leads to a notice; other errors are passed on. -/
def recover (m : Master) (model : Model Float32) :
    List Notice × Except Error (Option (Model Float32)) :=
  if m.training.hasOddPlace then ([], .error .notText)
  else
    match m.checkpoint with
    | .noPath => ([.noCheckpoint], .ok none)
    | .absent => ([.checkpointUnusable], .ok none)
    | .file bytes =>
      match restore model bytes with
      | .ok restored => ([], .ok (some restored))
      | .error e =>
        if e.isFile || e.isValue then ([.checkpointUnusable], .ok none) else ([], .error e)

/-- The model of the first round, recovered or drawn, and the tape behind it. -/
def firstModel (m : Master) (model : Model Float32) (source : Initializer) :
    List Notice × Except Error (Model Float32 × Tape) :=
  let (notices, recovered) :=
    if m.training.isContinuous then m.recover model else ([], .ok none)
  (notices, do
    match ← recovered with
    | some restored => pure (restored, m.tape)
    | none => model.drawWeights source m.tape)

/-- One round with the payloads of the workers. The first round ignores them. A value that does not
fit ends the job, and after any other error the round can be tried again. -/
def round (m : Master) (results : List (Payload Float)) : RoundOutcome :=
  match m.state with
  | .awaiting job source =>
    match m.firstModel job.model source with
    | (notices, .error e) => ⟨m, notices, .error e⟩
    | (notices, .ok (model, tape)) =>
      let next := { m with tape, state := .aggregating { job with model } 1 }
      ⟨next, notices, .ok ⟨model.parameters, Totals.zero, 0⟩⟩
  | .aggregating job i =>
    match job.aggregate i results with
    | ⟨job, .ok totals⟩ =>
      ⟨{ m with state := .aggregating job (i + 1) }, [],
        .ok ⟨job.model.parameters, totals, i⟩⟩
    | ⟨job, .error e⟩ =>
      if e.isValue then ⟨{ m with state := .failed job i }, [.roundFailed i], .error e⟩
      else ⟨{ m with state := .aggregating job i }, [], .error e⟩
  | _ => ⟨m, [], .error (.roundRefused m.phase)⟩

def halt (m : Master) : Except Error Master :=
  match m.state with
  | .aggregating job i => .ok { m with state := .converged job i }
  | _ => .error (.haltRefused m.phase)

end Master

end WideDeep
