import WideDeep.Artifacts
import WideDeep.CommandLine

/-!
# Sessions

A session carries out what a command line asks for, on the contents of the files that it names.
Weights that no checkpoint gives are drawn from the tape of the configured seed.
-/

namespace WideDeep

/-- What was found at the paths of a command line. -/
structure Sources where
  columns : Option String
  train : Option Frame
  valid : Option Frame
  checkpoint : Option Bytes

structure Session where
  setup : RunSetup
  result : RunResult

namespace Options

/-- What was found, or the error that nothing was. -/
def found {β : Type} (content : Option β) : Except Error β :=
  match content with
  | some c => .ok c
  | none => .error .fileNotFound

def modelConfig (o : Options) (columns : List ColumnRecord) : Except Error ModelConfig :=
  ModelConfig.make columns { norm := .text o.norm }

def training (o : Options) : TrainingConfig :=
  ((((TrainingConfig.initial.set .epochs (.int o.epochs)).set .numWorkers (.int o.workers)).set
    .learningRate (.real o.learningRate)).set .continuousTraining (.bool o.continuous)).set
    .checkpointPath ((o.checkpoint.map .text).getD .null)

def validation (o : Options) (valid : Option Frame) : Except Error (Option Frame) :=
  match o.validData with
  | none => .ok none
  | some path => if path.isEmpty then .ok none else some <$> found valid

/-- What stands at the path of the checkpoint. -/
def checkpointFound (o : Options) (checkpoint : Option Bytes) : Checkpoint :=
  match o.training.modelPath?, checkpoint with
  | none, _ => .noPath
  | some _, none => .absent
  | some _, some bytes => .file bytes

/-- Everything that a run takes. The columns are read and checked first and the records next. -/
def setup (o : Options) (s : Sources) : Except Error (RunSetup × Frame × Option Frame) := do
  let config ← o.modelConfig (← ColumnRecord.listOfText (← found s.columns))
  let train ← found s.train
  let valid ← o.validation s.valid
  let training := o.training
  let tape := Tape.seeded (UInt64.ofInt ((training.integerOf .seed).toOption.getD 0))
  pure
    ({ config, training, weight := .null, tape, checkpoint := o.checkpointFound s.checkpoint
       saves := true }, train, valid)

def run (o : Options) (s : Sources) : List Notice × Except Error Session :=
  match o.setup s with
  | .error e => ([], .error e)
  | .ok (setup, train, valid) =>
    let (notices, r) := Training.run setup train valid
    (notices, r.map fun result => ⟨setup, result⟩)

end Options

namespace Session

def logPath : String := "logs/training.log"

def paths (s : Session) : List String :=
  Text.sorted (logPath :: (Artifact.ofRun s.setup s.result).map (·.path))

def closing (directory : String) : String :=
  s!"\nTraining completed! All artifacts saved to: {directory}\n"

end Session

end WideDeep
