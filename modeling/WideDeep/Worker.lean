import WideDeep.Config.Model
import WideDeep.Model.Gradient
import WideDeep.Payload

/-!
# Workers

A worker holds a part of the records. Given weights, it returns the gradient and the errors of its
part as sums over records, so that the master can add them up.
-/

namespace WideDeep

/-- A worker with its part of the training records, and of the validation records if there are
any. -/
structure Worker (α : Type) where
  layout : Layout
  train : Dataset α
  validation : Option (Dataset α)
  batchSize : Nat

namespace Worker

variable {α δ : Type}

/-- A worker for a configured model. The batch size has to be positive. -/
def make (c : ModelConfig) (train : Dataset α) (validation : Option (Dataset α))
    (batchSize : Int) : Except Error (Worker α) := do
  let layout ← c.layout
  if batchSize ≤ 0 then throw .invalidValue
  pure ⟨layout, train, validation.filter fun d => 0 < d.size, batchSize.toNat⟩

def defaultBatchSize : Int := 4096

/-- The parts of the validation records for several workers; none for all of them if there are no
such records. -/
def validationShares (count : Int) : Option (Dataset α) → Except Error (List (Option (Dataset α)))
  | some d => (d.split count).map fun parts => parts.map some
  | none => .ok (List.replicate count.toNat none)

/-- What each of several workers gets: a part of the training records, and a part of the validation
records if there are any. -/
def shares (count : Int) (train : Dataset α) (validation : Option (Dataset α)) :
    Except Error (List (Dataset α × Option (Dataset α))) := do
  let trainParts ← train.split count
  let validationParts ← validationShares count validation
  pure (trainParts.zip validationParts)

variable [Scalar α] [Scalar δ] [Precision α δ]

/-- Check that the records fit the layout; without records there is nothing to check. -/
def checkData (l : Layout) (d : Dataset α) : Except Error Unit :=
  if d.samples.isEmpty then .ok () else (Model.resultCount l d.batch).map fun _ => ()

/-- Sums over batches, each computed in the numbers of the model and then collected in wider
ones. -/
def sumBatches (δ : Type) [Scalar δ] [Precision α δ] (f : List (Sample α) → α)
    (batches : List (List (Sample α))) : δ :=
  batches.foldl (fun sum b => sum + Precision.widen (f b)) 0

def measure (δ : Type) [Scalar δ] [Precision α δ] (w : Worker α) (m : Model α) (d : Dataset α) :
    δ × δ :=
  let batches := d.batches w.batchSize
  (sumBatches δ m.loss batches, sumBatches δ (fun b => total (b.map (·.weight))) batches)

/-- The gradients of batches, each added to those before it. A round begins with zeros. -/
def sumGradients (m : Model α) (batches : List (List (Sample α))) : Parameters α :=
  batches.foldl (fun sum b => sum.combine (· + ·) (m.gradient b))
    (m.layout.shapes.map fun (name, shape) => (name, Tensor.zeros shape))

def compute (δ : Type) [Scalar δ] [Precision α δ] (w : Worker α) (weights : Option (Parameters α))
    (iteration : Int) : Except Error (Payload δ) := do
  match weights with
  | none => throw .noWeights
  | some ps =>
    let m ← (Model.blank w.layout).load ps
    checkData w.layout w.train
    match w.validation with
    | some d => checkData w.layout d
    | none => pure ()
    let (trainError, trainCount) := w.measure δ m w.train
    let (validationError, validationCount) :=
      match w.validation with
      | some d => w.measure δ m d
      | none => (0, 0)
    pure
      { gradients := (sumGradients m (w.train.batches w.batchSize)).mapValues Precision.widen
        totals := ⟨trainCount, validationCount, trainError, validationError⟩
        iteration := iteration + 1 }

end Worker

end WideDeep
