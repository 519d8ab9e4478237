import WideDeep.Model.Basic

/-!
# Scoring

The logit of a record is the sum of a wide part, one number from the table of each wide column, and
of a deep part, the layers applied to the dense values and the embeddings. The score is its logistic
value. An index outside its table stands for a missing value and reads the last row.
-/

namespace WideDeep

/-- Rows of equal width. The width is kept for the case that there are none. -/
structure Grid (β : Type) where
  width : Nat
  rows : List (List β)

namespace Grid

/-- Two grids side by side. They have to have the same number of rows. -/
def beside {β : Type} (g h : Grid β) : Except Error (Grid β) :=
  if g.rows.length = h.rows.length then
    .ok ⟨g.width + h.width, List.zipWith (· ++ ·) g.rows h.rows⟩
  else .error .tensorShape

end Grid

structure Batch (α : Type) where
  dense : Grid α
  embed : Grid Int
  wide : Grid Int

/-- Inputs of one record: dense values and one index for each embedded and each wide column. -/
structure Inputs (α : Type) where
  dense : List α
  embed : List Int
  wide : List Int

/-- The row that an index reads from a table with so many rows. -/
def resolve (rows : Nat) (index : Int) : Nat :=
  if 0 ≤ index ∧ index < rows then index.toNat else rows - 1

/-- A layer with its weights, one list for each output. -/
structure Layer (α : Type) where
  weight : List (List α)
  bias : List α
  activation : Activation

namespace Layer

variable {α : Type} [Scalar α]

def dot (xs ys : List α) : α :=
  total (List.zipWith (· * ·) xs ys)

def linear (l : Layer α) (x : List α) : List α :=
  List.zipWith (fun row b => dot row x + b) l.weight l.bias

def apply (l : Layer α) (x : List α) : List α :=
  (l.linear x).map l.activation.apply

/-- A layer on all rows: the product with its weights, the biases added to each row, and the
activation of each number. The rows have to be as wide as the layer has inputs. -/
def applyAll (l : Layer α) (size : LayerSize) (x : Grid α) : Except Error (Grid α) :=
  if x.width = size.inputs then
    let product := x.rows.map fun row => l.weight.map (dot · row)
    let biased := product.map fun row => List.zipWith (· + ·) row l.bias
    .ok ⟨size.outputs, biased.map fun row => row.map l.activation.apply⟩
  else .error .tensorShape

end Layer

/-- The number of results when columns of `m` and `n` numbers are added: a single number is added
to each of the others. -/
def broadcast (m n : Nat) : Except Error Nat :=
  if m = n then .ok m
  else if m = 1 then .ok n
  else if n = 1 then .ok m
  else .error .tensorShape

/-- A list of `n` items; a single item is repeated. -/
def stretch {β : Type} (n : Nat) (xs : List β) : List β :=
  match xs with
  | [x] => List.replicate n x
  | _ => xs

/-- Two columns of numbers added. A single number is added to each of the others. -/
def addColumns {α : Type} [Add α] (xs ys : List α) : Except Error (List α) := do
  let n ← broadcast xs.length ys.length
  pure (List.zipWith (· + ·) (stretch n xs) (stretch n ys))

namespace Model

variable {α : Type} [Scalar α]

def embedRows (m : Model α) (column : Int) : List (List α) :=
  (m.parameters.tensor (.embedding column)).rows

def wideRows (m : Model α) (column : Int) : List (List α) :=
  (m.parameters.tensor (.wide column)).rows

def lookup (rows : List (List α)) (index : Int) : List α :=
  rows.getD (resolve rows.length index) []

def layersFrom (m : Model α) (position : Nat) : List LayerSize → List (Layer α)
  | [] => []
  | s :: rest =>
    ⟨(m.parameters.tensor (.deepWeight position)).rows,
      (m.parameters.tensor (.deepBias position)).data, s.activation⟩ ::
      m.layersFrom (position + 1) rest

def layers (m : Model α) : List (Layer α) :=
  m.layersFrom 0 m.layout.layers

def wideSum (m : Model α) (indices : List Int) : α :=
  (m.layout.wide.zip indices).foldl
    (fun sum p => sum + (lookup (m.wideRows p.1) p.2).headD 0)
    (m.parameters.tensor .wideBias).head

def deepInputs (m : Model α) (r : Inputs α) : List α :=
  r.dense ++ (m.layout.embed.zip r.embed).flatMap fun p => lookup (m.embedRows p.1) p.2

def deepSum (layers : List (Layer α)) (x : List α) : α :=
  (layers.foldl (fun x l => l.apply x) x).headD 0

def logit (m : Model α) (r : Inputs α) : α :=
  deepSum m.layers (m.deepInputs r) + m.wideSum r.wide

def score (m : Model α) (r : Inputs α) : α :=
  sigmoid (m.logit r)

/-- The table of a column, if indices at place `i` of each row can be read from it: the place has to be
there, and a table that is read has to have a row. -/
def tableFor (tables : List TableSize) (g : Grid Int) (column : Int) (i : Nat) :
    Except Error TableSize :=
  match tables.find? (·.column == column) with
  | none => .error .missingKey
  | some t =>
    if g.width ≤ i then .error .tensorIndex
    else if t.rows = 0 && !g.rows.isEmpty then .error .emptyTable
    else .ok t

/-- Check the look-ups in tables of one part. -/
def checkLookups (tables : List TableSize) (columns : List Int) (g : Grid Int) :
    Except Error Unit :=
  columns.zipIdx.forM fun p => (tableFor tables g p.1 p.2).map fun _ => ()

def embedWidth (l : Layout) : Nat :=
  (l.embed.map fun column =>
    ((l.embedTables.find? (·.column == column)).map (·.width)).getD 0).foldl (· + ·) 0

/-- The number of sums of the wide part. The first column meets the bias of each record. -/
def wideCount (l : Layout) (b : Batch α) : Except Error Nat :=
  match l.wide with
  | [] => .ok b.dense.rows.length
  | first :: rest => do
    checkLookups l.wideTables [first] b.wide
    let n ← broadcast b.dense.rows.length b.wide.rows.length
    checkLookups l.wideTables (first :: rest) b.wide
    pure n

/-- Check that inputs fit the layout, and count the logits they give. -/
def resultCount (l : Layout) (b : Batch α) : Except Error Nat := do
  let n ← wideCount l b
  checkLookups l.embedTables l.embed b.embed
  if !l.embed.isEmpty && b.embed.rows.length != b.dense.rows.length then throw .tensorShape
  if b.dense.width + embedWidth l != l.inputs then throw .tensorShape
  pure n

/-- The inputs of the records of a batch that gives `n` logits. -/
def records (l : Layout) (b : Batch α) (n : Nat) : List (Inputs α) :=
  let embed := if l.embed.isEmpty then List.replicate n [] else stretch n b.embed.rows
  let wide := if l.wide.isEmpty then List.replicate n [] else stretch n b.wide.rows
  ((stretch n b.dense.rows).zip (embed.zip wide)).map fun p => ⟨p.1, p.2.1, p.2.2⟩

/-- The rows of a table that the indices at place `i` of each row read. -/
def gather (tables : List TableSize) (table : Int → List (List α)) (g : Grid Int) (column : Int)
    (i : Nat) : Except Error (Grid α) := do
  let t ← tableFor tables g column i
  pure ⟨t.width, g.rows.map fun row => lookup (table column) (row.getD i 0)⟩

/-- Add what one wide column reads to the sums of all records. -/
def addWide (m : Model α) (b : Batch α) (sums : List α) (p : Int × Nat) :
    Except Error (List α) := do
  let read ← gather m.layout.wideTables m.wideRows b.wide p.1 p.2
  addColumns sums (read.rows.map (·.headD 0))

/-- The wide part of all records: the bias for each of them, then the tables, one after the other. -/
def wideSums (m : Model α) (b : Batch α) : Except Error (List α) :=
  m.layout.wide.zipIdx.foldlM (m.addWide b)
    (List.replicate b.dense.rows.length (m.parameters.tensor .wideBias).head)

/-- What the first layer gets for all records: the dense values and the embeddings of the columns,
side by side. -/
def deepGrid (m : Model α) (b : Batch α) : Except Error (Grid α) := do
  let embedded ← m.layout.embed.zipIdx.mapM fun p =>
    gather m.layout.embedTables m.embedRows b.embed p.1 p.2
  embedded.foldlM Grid.beside b.dense

/-- The logits of a batch, computed for all its records at once: column by column and layer by
layer. -/
def logits (m : Model α) (b : Batch α) : Except Error (List α) := do
  let wide ← m.wideSums b
  let inputs ← m.deepGrid b
  let deep ← (m.layers.zip m.layout.layers).foldlM (fun x p => p.1.applyAll p.2 x) inputs
  addColumns (deep.rows.map (·.headD 0)) wide

def scores (m : Model α) (b : Batch α) : Except Error (List α) :=
  (m.logits b).map (·.map sigmoid)

end Model

/-- An index for a column, as a caller gives it. -/
structure SparseInput where
  column : Int
  index : Int
  deriving DecidableEq

namespace SparseInput

/-- The index for a column: the last one given, or one that means a missing value. -/
def indexOf (inputs : List SparseInput) (column : Int) : Int :=
  ((inputs.reverse.find? (·.column == column)).map (·.index)).getD (-1)

end SparseInput

namespace Model

variable {α : Type} [Scalar α]

def single (l : Layout) (dense : List α) (embed wide : List SparseInput) : Batch α :=
  let row (columns : List Int) (inputs : List SparseInput) : Grid Int :=
    ⟨columns.length, [columns.map (SparseInput.indexOf inputs)]⟩
  ⟨⟨dense.length, [dense]⟩, row l.embed embed, row l.wide wide⟩

/-- The score of one record, given by sparse inputs. The indices of the columns that the model reads
have to fit into machine words. -/
def compute (m : Model α) (dense : List α) (embed wide : List SparseInput) :
    Except Error (List α) :=
  let indices := m.layout.embed.map (SparseInput.indexOf embed) ++
    m.layout.wide.map (SparseInput.indexOf wide)
  if indices.all fitsIndex then m.scores (single m.layout dense embed wide)
  else .error .indexRange

end Model

end WideDeep
