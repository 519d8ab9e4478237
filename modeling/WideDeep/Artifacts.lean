import WideDeep.Document.Writer
import WideDeep.Training

/-!
# Artifacts

The files that a training run leaves in its directory: the configuration, the history, and the model
unless the configuration names another place for it.
-/

namespace WideDeep

structure Artifact where
  path : String
  content : Bytes

def Evaluation.toDocument (e : Evaluation) : Document :=
  .table
    ([("num_samples", .int e.size), ("mean_predicted_prob", .real e.meanScore),
      ("mean_actual_prob", .real e.meanTarget)] ++
     match e.measures with
     | some m => [("auc", .real m.area), ("logloss", .real m.logLoss)]
     | none => [])

def TrainingConfig.modelPath? (c : TrainingConfig) : Option String :=
  c.modelPlace?.map Document.plain

namespace Artifact

def ofDocument (path : String) (d : Document) : Artifact :=
  ⟨path, d.write.toUTF8.data.toList⟩

def modelPath : String := "models/model.wdl"

def configuration (s : RunSetup) : Document :=
  .table [("model", s.config.toDocument), ("train", s.training.toDocument)]

def history (r : RunResult) : Document :=
  .table
    ([("train_error", .list (r.history.trainErrors.map .real)),
      ("validation_error", .list (r.history.validationErrors.map .real)),
      ("best_iteration", .int r.history.bestIteration),
      ("best_validation_error", .real r.history.bestError)] ++
     match r.evaluation with
     | some e => [("evaluation", e.toDocument)]
     | none => [])

def ofRun (s : RunSetup) (r : RunResult) : List Artifact :=
  let model : List Artifact :=
    match s.training.modelPath?, r.saved with
    | none, some bytes => [⟨modelPath, bytes⟩]
    | _, _ => []
  ofDocument "config.json" (configuration s) :: model ++
    [ofDocument "training_history.json" (history r)]

end Artifact

end WideDeep
