import WideDeep.Model.Parameter
import WideDeep.Scalar

/-!
# Payloads

What goes to and fro in a round of training: workers send gradients and totals, summed over their
records, and the master broadcasts weights. Payloads of several workers are combined into one by
addition.
-/

namespace WideDeep

structure Totals (δ : Type) where
  trainCount : δ
  validationCount : δ
  trainError : δ
  validationError : δ

namespace Totals

variable {δ : Type}

def zero [Zero δ] : Totals δ :=
  ⟨0, 0, 0, 0⟩

def add [Add δ] (s t : Totals δ) : Totals δ :=
  ⟨s.trainCount + t.trainCount, s.validationCount + t.validationCount,
    s.trainError + t.trainError, s.validationError + t.validationError⟩

/-- An error for each unit of weight; zero if there is no weight. -/
def mean [Scalar δ] (error count : δ) : δ :=
  if Scalar.less 0 count then error / count else 0

def meanTrainError [Scalar δ] (t : Totals δ) : δ :=
  mean t.trainError t.trainCount

def meanValidationError [Scalar δ] (t : Totals δ) : δ :=
  mean t.validationError t.validationCount

/-- The error that decides about early stopping: that of the validation records if there are any,
else that of the training records. -/
def monitored [Scalar δ] (t : Totals δ) : δ :=
  if Scalar.less 0 t.validationCount then t.meanValidationError else t.meanTrainError

end Totals

structure Payload (δ : Type) where
  gradients : Parameters δ
  totals : Totals δ
  iteration : Int

structure Broadcast (α δ : Type) where
  weights : Parameters α
  totals : Totals δ
  iteration : Nat

namespace Payload

variable {δ : Type} [Add δ]

/-- Add gradients under the names of the first ones, whose shapes the others must have. -/
def addGradients (ps qs : Parameters δ) : Except Error (Parameters δ) :=
  ps.mapM fun (name, s) =>
    match qs.get? name with
    | none => .error (.gradientNames [name.text])
    | some t =>
      if h : s.shape = t.shape then .ok (name, Tensor.zipWith (· + ·) s t h)
      else .error (.gradientShapes name.text s.shape t.shape)

/-- The sum of two payloads; the later iteration counts. -/
def combine (p q : Payload δ) : Except Error (Payload δ) := do
  let names := Parameters.difference p.gradients.names q.gradients.names
  if !names.isEmpty then throw (.gradientNames names)
  let gradients ← addGradients p.gradients q.gradients
  pure ⟨gradients, p.totals.add q.totals,
    if p.iteration < q.iteration then q.iteration else p.iteration⟩

def combineAll (first : Payload δ) (rest : List (Payload δ)) : Except Error (Payload δ) :=
  rest.foldlM combine first

end Payload

end WideDeep
