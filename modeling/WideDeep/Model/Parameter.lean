import WideDeep.Error
import WideDeep.Tensor
import WideDeep.Decimal.Reading
import WideDeep.Text.Order

/-!
# Parameters

The parameters of a model are tensors under names. A set of parameters can come from a worker or a
caller, so it may hold names that no model has.
-/

namespace WideDeep

inductive ParamName where
  | wideBias
  | embedding (column : Int)
  | wide (column : Int)
  | deepWeight (layer : Nat)
  | deepBias (layer : Nat)
  | other (name : String)
  deriving DecidableEq

namespace ParamName

def text : ParamName → String
  | wideBias => "wide_bias"
  | embedding column => s!"embeddings.{column}.weight"
  | wide column => s!"wide.{column}.weight"
  | deepWeight layer => s!"deep.{layer}.weight"
  | deepBias layer => s!"deep.{layer}.bias"
  | other name => name

/-- The number between two texts, if it is written in its shortest form. -/
def numberBetween? (before after name : String) : Option Int :=
  let cs := name.toList
  let inner := (cs.drop before.length).take (cs.length - before.length - after.length)
  match Decimal.readInt? (String.ofList inner) with
  | some n => if before ++ toString n ++ after == name then some n else none
  | none => none

def layerBetween? (before after name : String) : Option Nat :=
  match numberBetween? before after name with
  | some (.ofNat n) => some n
  | _ => none

def ofText (name : String) : ParamName :=
  if name == "wide_bias" then wideBias
  else
    match numberBetween? "embeddings." ".weight" name with
    | some column => embedding column
    | none =>
      match numberBetween? "wide." ".weight" name with
      | some column => wide column
      | none =>
        match layerBetween? "deep." ".weight" name with
        | some layer => deepWeight layer
        | none =>
          match layerBetween? "deep." ".bias" name with
          | some layer => deepBias layer
          | none => other name

end ParamName

abbrev Parameters (α : Type) := List (ParamName × Tensor α)

namespace Parameters

variable {α β : Type}

def names (ps : Parameters α) : List ParamName :=
  ps.map (·.1)

def shapes (ps : Parameters α) : List (ParamName × List Nat) :=
  ps.map fun p => (p.1, p.2.shape)

def get? (ps : Parameters α) (name : ParamName) : Option (Tensor α) :=
  ps.lookup name

/-- The tensor under a name, and a scalar zero if there is none. -/
def tensor [Zero α] (ps : Parameters α) (name : ParamName) : Tensor α :=
  (ps.get? name).getD default

def mapValues (f : α → β) (ps : Parameters α) : Parameters β :=
  ps.map fun p => (p.1, p.2.map f)

/-- Change each tensor by the one under its name in other parameters, place by place. -/
def combine [Zero β] (f : α → β → α) (ps : Parameters α) (qs : Parameters β) : Parameters α :=
  ps.map fun p => (p.1, p.2.combine f (qs.tensor p.1))

/-- The texts of those names in one list that another list lacks, in order. -/
def missing (wanted given : List ParamName) : List String :=
  Text.sorted ((wanted.filter fun n => !given.contains n).map ParamName.text)

/-- The texts of the names that are in one of two lists only, in order. -/
def difference (one two : List ParamName) : List String :=
  Text.sorted (((one.filter fun n => !two.contains n) ++
    (two.filter fun n => !one.contains n)).map ParamName.text)

def size (ps : Parameters α) : Nat :=
  (ps.map fun p => volume p.2.shape).foldl (· + ·) 0

/-- The tensors under given names and of given shapes; zeros where one is missing or has another
shape. -/
def fit [Zero α] (layout : List (ParamName × List Nat)) (ps : Parameters α) : Parameters α :=
  layout.map fun p => (p.1, (ps.tensor p.1).withShape p.2)

theorem shapes_fit [Zero α] (layout : List (ParamName × List Nat)) (ps : Parameters α) :
    (fit layout ps).shapes = layout := by
  simp [fit, shapes, List.map_map, Function.comp_def, Tensor.shape_withShape]

theorem shapes_combine [Zero β] (f : α → β → α) (ps : Parameters α) (qs : Parameters β) :
    (ps.combine f qs).shapes = ps.shapes := by
  simp [combine, shapes, List.map_map, Function.comp_def, Tensor.shape_combine]

/-- Check that names and shapes are those of a layout: first the names, then the shapes in the
order of the layout. -/
def check (layout : List (ParamName × List Nat)) (ps : Parameters α) : Except Error Unit :=
  let wanted := layout.map (·.1)
  let lacking := missing wanted ps.names
  let unexpected := missing ps.names wanted
  if !lacking.isEmpty || !unexpected.isEmpty then .error (.weightNames lacking unexpected)
  else
    layout.forM fun (name, shape) =>
      match ps.get? name with
      | none => .error (.weightNames [name.text] [])
      | some t => if t.shape = shape then .ok () else .error (.weightShape name.text t.shape shape)

end Parameters

end WideDeep
