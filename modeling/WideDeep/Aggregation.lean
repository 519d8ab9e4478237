import WideDeep.Model.Basic
import WideDeep.Optimizer
import WideDeep.Payload

/-!
# Aggregation

The payloads of a round are added up, the gradient is divided by the number of training records, and
the optimizer takes one step. If a payload does not fit, nothing has changed.
-/

namespace WideDeep

structure Job (α : Type) where
  model : Model α
  optimizer : Optimizer α

/-- What a round leaves: the job behind it, and the totals of the round or the error that ended
it. -/
structure JobOutcome (α δ : Type) where
  job : Job α
  result : Except Error (Totals δ)

namespace Job

variable {α δ : Type} [Scalar α] [Scalar δ] [Precision α δ]

/-- The factor that turns a sum over records into a mean; one if nothing was counted. -/
def meanFactor (count : δ) : δ :=
  if Scalar.less 0 count then 1 / count else 1

/-- A gradient times a factor. The gradient of a single worker is scaled in the numbers of the
model, and a sum of gradients in the wider ones. -/
def scaled (alone : Bool) (factor : δ) (gradient : Tensor δ) : Tensor α :=
  gradient.map fun g =>
    if alone then Precision.narrow g * Precision.narrow factor
    else Precision.narrow (g * factor)

/-- The mean gradients under names and of shapes, which the payload has to have: first the names,
then the shapes in order. -/
def meanGradients (layout : List (ParamName × List Nat)) (alone : Bool) (p : Payload δ) :
    Except Error (Parameters α) := do
  let names := Parameters.difference (layout.map (·.1)) p.gradients.names
  if !names.isEmpty then throw (.workerGradients names)
  layout.mapM fun (name, shape) =>
    match p.gradients.get? name with
    | none => .error (.workerGradients [name.text])
    | some g =>
      if g.shape = shape then .ok (name, scaled alone (meanFactor p.totals.trainCount) g)
      else .error (.gradientShape name.text g.shape shape)

/-- Move the weights by mean gradients. What a step that fails has done before stays done. -/
def move (j : Job α) (gradients : Parameters α) : Job α × Except Error Unit :=
  let s := j.optimizer.step j.model.parameters gradients
  (⟨Model.ofParameters j.model.layout s.weights, { j.optimizer with moments := s.moments }⟩,
    match s.failure with
    | some e => .error e
    | none => .ok ())

def combined (iteration : Nat) (results : List (Payload δ)) : Except Error (Payload δ) :=
  match results with
  | [] => .error (.noResults iteration)
  | first :: rest => Payload.combineAll first rest

/-- Add up the payloads of a round and take a step. -/
def aggregate (j : Job α) (iteration : Nat) (results : List (Payload δ)) : JobOutcome α δ :=
  let summed : Except Error (Totals δ × Parameters α) := do
    let p ← combined iteration results
    return (p.totals, ← meanGradients j.model.layout.shapes (results.length == 1) p)
  match summed with
  | .error e => ⟨j, .error e⟩
  | .ok (totals, gradients) =>
    let (moved, done) := j.move gradients
    ⟨moved, done.map fun _ => totals⟩

end Job

end WideDeep
