import WideDeep.Initializer
import WideDeep.Model.Layout

/-!
# Models

A model is a layout with parameters of its names and shapes. Parameters are replaced as a whole:
either all of them fit, or none is changed.
-/

namespace WideDeep

structure Model (α : Type) where
  layout : Layout
  parameters : Parameters α
  parameters_fit : parameters.shapes = layout.shapes

namespace Model

variable {α : Type} [Zero α]

def ofParameters (layout : Layout) (ps : Parameters α) : Model α :=
  ⟨layout, Parameters.fit layout.shapes ps, Parameters.shapes_fit layout.shapes ps⟩

def blank (layout : Layout) : Model α :=
  ofParameters layout []

def load (m : Model α) (ps : Parameters α) : Except Error (Model α) := do
  Parameters.check m.layout.shapes ps
  pure (ofParameters m.layout ps)

/-- Check that another model reads the same columns through the same activations. -/
def checkLayout (own other : Layout) : Except Error Unit := do
  if own.dense ≠ other.dense then throw (.columnIds .dense own.dense other.dense)
  if own.embed ≠ other.embed then throw (.columnIds .embed own.embed other.embed)
  if own.wide ≠ other.wide then throw (.columnIds .wide own.wide other.wide)
  if own.activations ≠ other.activations then
    throw (.activations (own.activations.map Activation.name)
      (other.activations.map Activation.name))

def update (m other : Model α) : Except Error (Model α) := do
  checkLayout m.layout other.layout
  m.load other.parameters

/-- The weights of one parameter: a matrix, or a single number, or else a vector. -/
def drawOne (init : Initializer) (shape : List Nat) (t : Tape) :
    Except Error (List Float32 × Tape) :=
  match shape with
  | [rows, columns] => init.fill (rows * columns) t
  | _ =>
    if volume shape = 1 then (init.scalar t).map fun p => ([p.1], p.2)
    else init.fill (shape.headD 0) t

/-- Fill places under names and shapes with draws, in order. -/
def drawAll (init : Initializer) :
    List (ParamName × List Nat) → Tape → Except Error (Parameters Float32 × Tape)
  | [], t => .ok ([], t)
  | (name, shape) :: rest, t => do
    let (data, t) ← drawOne init shape t
    let (ps, t) ← drawAll init rest t
    pure ((name, Tensor.ofList shape data) :: ps, t)

def drawWeights (m : Model Float32) (init : Initializer) (t : Tape) :
    Except Error (Model Float32 × Tape) := do
  let (ps, t) ← drawAll init m.layout.shapes t
  pure (ofParameters m.layout ps, t)

end Model

end WideDeep
