import WideDeep.Model.Activation
import WideDeep.Model.Parameter
import WideDeep.Column.Record

/-!
# Layouts

A layout says which columns a model reads, the sizes of its tables and of its layers. It fixes the
names and shapes of the parameters. Each table has one row more than its column has categories, for
missing values.
-/

namespace WideDeep

structure TableSize where
  column : Int
  rows : Nat
  width : Nat
  deriving DecidableEq

/-- The size of a layer and the function behind it. -/
structure LayerSize where
  inputs : Nat
  outputs : Nat
  activation : Activation
  deriving DecidableEq

structure Layout where
  dense : List Int
  embed : List Int
  wide : List Int
  embedTables : List TableSize
  wideTables : List TableSize
  inputs : Nat
  hidden : List (Nat × Activation)
  l2 : Binary.Stored Float

/-- What a layout is made from, before anything has been checked. -/
structure LayoutSpec where
  categories : List (Int × Int)
  dense : List Document
  embed : List Document
  embedWidths : List Document
  wide : List Document
  hidden : List Document
  activations : List Document
  l2 : Document

/-- Whether an index or a size fits into a machine word. -/
def fitsIndex (index : Int) : Bool :=
  -0x8000000000000000 ≤ index && index < 0x8000000000000000

namespace TableSize

/-- Put a table in place of an earlier one of its column, or behind all others. -/
def put (tables : List TableSize) (t : TableSize) : List TableSize :=
  match tables with
  | [] => [t]
  | s :: rest => if s.column == t.column then t :: rest else s :: put rest t

/-- The table of a column with so many categories. -/
def make (categories : List (Int × Int)) (column : Int) (width : Document) :
    Except Error TableSize :=
  match categories.lookup column with
  | none => .error .missingKey
  | some n => do
    let w ← width.toWhole
    if n + 1 < 0 || w < 0 then throw .tensorShape
    pure ⟨column, (n + 1).toNat, w.toNat⟩

/-- The tables of columns with given widths, one for each column. -/
def makeAll (categories : List (Int × Int)) (columns : List (Int × Document)) :
    Except Error (List TableSize) :=
  columns.foldlM
    (fun tables p => do return put tables (← make categories p.1 p.2)) []

end TableSize

namespace Layout

/-- Layers from a number of inputs on: the hidden ones and the linear output. -/
def layersFrom (inputs : Nat) : List (Nat × Activation) → List LayerSize
  | [] => [⟨inputs, 1, .linear⟩]
  | (n, a) :: rest => ⟨inputs, n, a⟩ :: layersFrom n rest

def layers (l : Layout) : List LayerSize :=
  layersFrom l.inputs l.hidden

def activations (l : Layout) : List Activation :=
  l.layers.map (·.activation)

def layerShapes (position : Nat) : List LayerSize → List (ParamName × List Nat)
  | [] => []
  | s :: rest =>
    (.deepWeight position, [s.outputs, s.inputs]) :: (.deepBias position, [s.outputs]) ::
      layerShapes (position + 1) rest

def shapes (l : Layout) : List (ParamName × List Nat) :=
  (.wideBias, [1]) ::
    (l.embedTables.map (fun t => (ParamName.embedding t.column, [t.rows, t.width])) ++
      l.wideTables.map (fun t => (ParamName.wide t.column, [t.rows, t.width])) ++
      layerShapes 0 l.layers)

def size (l : Layout) : Nat :=
  (l.shapes.map fun p => volume p.2).foldl (· + ·) 0

/-- The weight of regularization; what counts as absent is zero. -/
def regularization (d : Document) : Except Error (Binary.Stored Float) :=
  if d.isAbsent then .ok 0 else d.toStored

def layerSize (d : Document) : Except Error Nat :=
  match d.integer? with
  | some n => if n < 0 then .error .tensorShape else .ok n.toNat
  | none => .error .wrongType

/-- Build a layout. The counts are checked first, then the columns, the regularization, the tables,
the sizes of the layers, and the names of the activations. -/
def make (s : LayoutSpec) : Except Error Layout := do
  if s.embedWidths.length != s.embed.length then throw .embedWidthCount
  if s.activations.length != s.hidden.length then throw .activationCount
  let dense ← s.dense.mapM Document.toInt
  let embed ← s.embed.mapM Document.toInt
  let wide ← s.wide.mapM Document.toInt
  let l2 ← regularization s.l2
  let embedTables ← TableSize.makeAll s.categories (embed.zip s.embedWidths)
  let wideTables ← TableSize.makeAll s.categories (wide.map fun c => (c, .int 1))
  let widths := (← s.embedWidths.mapM Document.toWhole).map Int.toNat
  let inputs := dense.length + widths.foldl (· + ·) 0
  let hidden ← s.hidden.mapM layerSize
  let activations ← s.activations.mapM Activation.ofDocument
  pure
    { dense, embed, wide, embedTables, wideTables, inputs, hidden := hidden.zip activations, l2 }

/-- Numbers of a parameter beyond which there is no room for it. -/
def capacity : Nat := 0x10000000000

/-- A layout if there is room for its parameters, whose sizes have to be machine words. -/
def withRoom (l : Layout) : Except Error Layout :=
  let shapes := l.shapes.map (·.2)
  if shapes.any fun s => s.any fun n => !fitsIndex n then .error .wrongType
  else if shapes.any fun s => capacity ≤ volume s then .error .tensorShape
  else .ok l

def plan (s : LayoutSpec) : Except Error Layout := do
  withRoom (← make s)

end Layout

end WideDeep
