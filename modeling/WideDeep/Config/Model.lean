import WideDeep.Assembler
import WideDeep.ModelFile.Reader
import WideDeep.Number

/-!
# Model configuration

A configuration chooses from the columns: numerical and hybrid ones are dense, categorical ones are
wide and, unless other columns are named, embedded as well.
-/

namespace WideDeep

structure ModelOptions where
  embed : Document := .null
  embedWidth : Document := .null
  hidden : Document := .null
  activations : Document := .null
  l2 : Document := .null
  norm : Document := .null
  selected : Document := .null

namespace ModelOptions

def names : List String :=
  ["embed_column_ids", "embed_output", "hidden_nodes", "act_funcs", "l2_reg", "norm_type",
   "selected_column_ids"]

def items? : Document → Except Error (Option (List Document))
  | .null => .ok none
  | d => d.toItems.map some

def valueOf (d : Document) (key : String) : Document :=
  (d.get? key).getD .null

def ofDocument (d : Document) : Except Error ModelOptions := do
  match d with
  | .table entries => if entries.any fun e => !names.contains e.1 then throw .wrongType
  | _ => pure ()
  pure
    { embed := valueOf d "embed_column_ids"
      embedWidth := valueOf d "embed_output"
      hidden := valueOf d "hidden_nodes"
      activations := valueOf d "act_funcs"
      l2 := valueOf d "l2_reg"
      norm := valueOf d "norm_type"
      selected := valueOf d "selected_column_ids" }

end ModelOptions

/-- A model configuration. The columns, and the sizes and names that only the model checks, are kept
as they are given. -/
structure ModelConfig where
  columns : List ColumnRecord
  selected : Option (List Document)
  dense : List Int
  embed : List Int
  wide : List Int
  embedWidth : Document
  hidden : List Document
  activations : List Document
  l2 : Float
  norm : NormKind

namespace ModelConfig

def defaultEmbedWidth : Document := .int 16

def defaultHidden : List Document := [.int 50]

def defaultActivation : Document := .text "tanh"

def defaultNorm : NormKind := .zscale

def sortedIds (ids : List Document) : Except Error (List Document) :=
  if ids.length ≤ 1 then .ok ids
  else if (ids.mapM Document.text?).isSome then
    .ok ((Text.sorted (ids.filterMap Document.text?)).map .text)
  else do
    let ns ← ids.mapM Document.toNumber
    pure (((ids.zip ns).mergeSort fun a b => !b.2.less a.2).map (·.1))

/-- The column number that an id equals. Lists and tables cannot be ids. -/
def columnNumber (d : Document) : Except Error (Option Int) :=
  match d with
  | .list _ => .error .wrongType
  | .table _ => .error .wrongType
  | .real x => .ok (Binary.integer? x)
  | .bool b => .ok (some (if b then 1 else 0))
  | d => .ok d.integer?

/-- Columns in the order of their numbers, as far as they are selected. -/
def candidates (columns : List ColumnRecord) (selected : Option (List Document)) :
    List ColumnRecord :=
  (columns.mergeSort fun a b => decide (a.number ≤ b.number)).filter fun c =>
    match selected with
    | some ids => ids.any fun d => (columnNumber d).toOption == some (some c.number)
    | none => true

def categorical (columns : List ColumnRecord) : List Int :=
  (columns.filter (·.kind == .categorical)).map (·.number)

/-- The kind of normalization that a document names; what counts as absent means the default. -/
def normKind (d : Document) : Except Error NormKind :=
  if d.isAbsent then .ok defaultNorm else NormKind.ofDocument d

/-- The numbers of the columns to embed; all of them have to be categorical. -/
def embedNumbers (categorical : List Int) (ids : List Document) : Except Error (List Int) := do
  let numbers ← ids.mapM columnNumber
  let known (n : Option Int) : Bool := n.any categorical.contains
  let refused := ((ids.zip numbers).filter fun p => !known p.2).map (·.1.shown)
  if !refused.isEmpty then throw (.embedNotCategorical refused)
  pure (numbers.filterMap id)

/-- Build a configuration. Embedded columns have to be categorical, each hidden layer needs an
activation, and then the regularization and the normalization are read. -/
def make (columns : List ColumnRecord) (o : ModelOptions) : Except Error ModelConfig := do
  let columns := ColumnStatsOf.byNumber columns
  let selected ← (← ModelOptions.items? o.selected).mapM sortedIds
  let chosen := candidates columns selected
  let dense := (chosen.filter (·.kind != .categorical)).map (·.number)
  let wide := categorical chosen
  let embedIds := (← ModelOptions.items? o.embed).getD (wide.map .int)
  let embed ← embedNumbers (categorical columns) embedIds
  let embedWidth := if o.embedWidth.isAbsent then defaultEmbedWidth else o.embedWidth
  let hidden := (← ModelOptions.items? o.hidden).getD defaultHidden
  let activations :=
    (← ModelOptions.items? o.activations).getD (hidden.map fun _ => defaultActivation)
  if activations.length != hidden.length then
    throw (.configuredActivations activations.length hidden.length)
  let l2 ←
    match o.l2 with
    | .null => pure 0
    | d => d.toReal
  let norm ← normKind o.norm
  pure ⟨columns, selected, dense, embed, wide, embedWidth, hidden, activations, l2, norm⟩

def categories (c : ModelConfig) : List (Int × Int) :=
  (c.columns.filter (·.kind == .categorical)).map fun s => (s.number, (s.labels.length : Int))

def embedWidths (c : ModelConfig) : List Document :=
  c.embed.map fun _ => c.embedWidth

def layout (c : ModelConfig) : Except Error Layout :=
  Layout.plan
    { categories := c.categories
      dense := c.dense.map .int
      embed := c.embed.map .int
      embedWidths := c.embedWidths
      wide := c.wide.map .int
      hidden := c.hidden
      activations := c.activations
      l2 := .real c.l2 }

def build (c : ModelConfig) : Except Error (Model Float32) :=
  c.layout.map Model.blank

def assembler (c : ModelConfig) : Except Error Assembler :=
  Assembler.make c.columns c.norm c.dense c.embed c.wide true

def toDocument (c : ModelConfig) : Document :=
  let ints (ns : List Int) : Document := .list (ns.map .int)
  .table
    [("dense_column_ids", ints c.dense), ("embed_column_ids", ints c.embed),
     ("wide_column_ids", ints c.wide), ("embed_output", c.embedWidth),
     ("hidden_nodes", .list c.hidden), ("act_funcs", .list c.activations),
     ("l2_reg", .real c.l2), ("norm_type", .text c.norm.name)]

end ModelConfig

end WideDeep
