import WideDeep.Dataset

/-!
# Loss and gradient

The loss of a record is its weighted cross entropy. Its derivative is carried back through the
layers to the inputs of the deep part, and what reaches an embedding is added to the row that the
record read. The gradient of several records is the sum of theirs.
-/

namespace WideDeep

namespace Loss

variable {α : Type} [Scalar α]

def logSigmoid (x : α) : α :=
  let low := if Scalar.less 0 x then 0 else x
  let magnitude := if Scalar.less x 0 then -x else x
  low - Scalar.logOnePlus (Scalar.exp (-magnitude))

def crossEntropy (x target : α) : α :=
  (1 - target) * x - logSigmoid x

def weighted (x target weight : α) : α :=
  crossEntropy x target * weight

/-- The derivative of the weighted loss by the logit. -/
def slope (x target weight : α) : α :=
  (sigmoid x - target) * weight

/-- The weighted loss of several logits. Targets have to be as many as logits, and a single weight
is shared by all. -/
def sum (logits targets weights : List α) : Except Error α := do
  if targets.length != logits.length then throw .invalidValue
  let n ← broadcast logits.length weights.length
  let losses := List.zipWith crossEntropy logits targets
  pure (total (List.zipWith (· * ·) (stretch n losses) (stretch n weights)))

end Loss

/-- What one layer saw of one record: its inputs, and the derivatives by the values before its
activation. -/
structure LayerTrace (α : Type) where
  input : List α
  delta : List α

/-- The derivatives of the loss of one record: by the logit, by the inputs of the deep part, and
layer by layer. -/
structure Sensitivity (α : Type) where
  slope : α
  inputs : List α
  layers : List (LayerTrace α)

namespace Gradient

variable {α : Type} [Scalar α]

def add (xs ys : List α) : List α :=
  List.zipWith (· + ·) xs ys

def scale (c : α) (xs : List α) : List α :=
  xs.map (c * ·)

def pullBack (l : Layer α) (width : Nat) (delta : List α) : List α :=
  (List.zipWith scale delta l.weight).foldl add (List.replicate width 0)

/-- Carry the derivative `d` by the output back through layers with inputs `x`. -/
def backward : List (Layer α) → List α → α → List (LayerTrace α) × List α
  | [], _, d => ([], [d])
  | l :: rest, x, d =>
    let before := l.linear x
    let after := before.map l.activation.apply
    let (traces, g) := backward rest after d
    let delta := List.zipWith (fun p g => l.activation.back p.1 p.2 g) (before.zip after) g
    (⟨x, delta⟩ :: traces, pullBack l x.length delta)

def segments : List Nat → List α → List (List α)
  | [], _ => []
  | n :: rest, xs => xs.take n :: segments rest (xs.drop n)

/-- A table of zeros with rows added at places. -/
def scatter (rows width : Nat) (hits : List (Nat × List α)) : List (List α) :=
  hits.foldl (fun table hit => table.modify hit.1 (add · hit.2))
    (List.replicate rows (List.replicate width 0))

end Gradient

namespace Model

variable {α : Type} [Scalar α]

open WideDeep.Gradient

/-- The derivatives of the loss of one record. -/
def sensitivity (m : Model α) (s : Sample α) : Sensitivity α :=
  let d := Loss.slope (m.logit s.inputs) s.target s.weight
  let (traces, inputs) := backward m.layers (m.deepInputs s.inputs) d
  ⟨d, inputs, traces⟩

/-- The rows of a wide table that a record read, each with the derivative that falls on it. -/
def wideHits (l : Layout) (column : Int) (rows : Nat) (s : Sample α) (g : Sensitivity α) :
    List (Nat × List α) :=
  ((l.wide.zip s.inputs.wide).filter (·.1 == column)).map fun p => (resolve rows p.2, [g.slope])

/-- The rows of an embedding table that a record read, each with the derivatives that fall on
it. -/
def embedHits (l : Layout) (column : Int) (rows : Nat) (s : Sample α) (g : Sensitivity α) :
    List (Nat × List α) :=
  let width (c : Int) : Nat := ((l.embedTables.find? (·.column == c)).map (·.width)).getD 0
  let pieces := segments (l.embed.map width) (g.inputs.drop s.inputs.dense.length)
  ((l.embed.zip (s.inputs.embed.zip pieces)).filter (·.1 == column)).map fun p =>
    (resolve rows p.2.1, p.2.2)

/-- What a layer saw of a record; nothing if there is no such layer. -/
def layerTrace (position : Nat) (g : Sensitivity α) : LayerTrace α :=
  g.layers.getD position ⟨[], []⟩

def gradientData (l : Layout) (traced : List (Sample α × Sensitivity α)) (name : ParamName)
    (rows width : Nat) : List α :=
  match name with
  | .wideBias => [total (traced.map (·.2.slope))]
  | .wide column =>
    (scatter rows width (traced.flatMap fun p => wideHits l column rows p.1 p.2)).flatten
  | .embedding column =>
    (scatter rows width (traced.flatMap fun p => embedHits l column rows p.1 p.2)).flatten
  | .deepWeight i =>
    ((traced.map fun p =>
        let t := layerTrace i p.2
        t.delta.map (scale · t.input)).foldl (List.zipWith add)
      (List.replicate rows (List.replicate width 0))).flatten
  | .deepBias i =>
    (traced.map fun p => (layerTrace i p.2).delta).foldl add (List.replicate rows 0)
  | .other _ => []

def gradient (m : Model α) (samples : List (Sample α)) : Parameters α :=
  let traced := samples.map fun s => (s, m.sensitivity s)
  m.layout.shapes.map fun (name, shape) =>
    (name, Tensor.ofList shape
      (gradientData m.layout traced name (shape.headD 0) (shape.getD 1 1)))

def loss (m : Model α) (samples : List (Sample α)) : α :=
  total (samples.map fun s => Loss.weighted (m.logit s.inputs) s.target s.weight)

end Model

end WideDeep
