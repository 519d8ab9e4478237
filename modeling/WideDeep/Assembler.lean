import WideDeep.Dataset
import WideDeep.Frame
import WideDeep.Normalization

/-!
# Assembling model inputs

Raw records become the inputs of a model: normalized values of the dense columns and category
numbers of the embedded and the wide columns. Single records and frames go the same way.
-/

namespace WideDeep

/-- A column with the name under which records hold it and the index of its labels. -/
structure Feature where
  stats : ColumnStats
  name : Document
  index : CategoryIndex
  index_eq : index = stats.categoryIndex := by rfl

namespace Feature

def make (name : Document) (stats : ColumnStats) : Feature :=
  { stats, name, index := stats.categoryIndex }

/-- The feature of a column, looked up by its full name or by the name without name space. -/
def ofStats (simple : Bool) (c : ColumnStats) : Feature :=
  make ((c.name.map fun s => Document.text (if simple then simpleName s else s)).getD .null) c

/-- The name as a key of records. What is no text is no key of any record, and lists and tables
cannot be looked up at all. -/
def key? (f : Feature) : Except Error (Option String) :=
  match f.name with
  | .text s => .ok (some s)
  | .list _ => .error .wrongType
  | .table _ => .error .wrongType
  | _ => .ok none

def number (f : Feature) (v : Raw) : Int :=
  f.index.number v

end Feature

/-- How raw records become inputs. -/
structure Assembler where
  features : List Feature
  norm : NormKind
  dense : List Int
  embed : List Int
  wide : List Int

namespace Assembler

def checkKnown (known used : List Int) : Except Error Unit :=
  let unknown := (used.filter fun id => !known.contains id).eraseDups
  if unknown.isEmpty then .ok ()
  else .error (.columnsMissing (unknown.mergeSort fun a b => decide (a ≤ b)))

/-- The assembler for columns as they are given: first all names are taken, then all labels. -/
def make (columns : List ColumnRecord) (norm : NormKind) (dense embed wide : List Int)
    (simple : Bool) : Except Error Assembler := do
  checkKnown (columns.map (·.number)) (dense ++ embed ++ wide)
  let names ← columns.mapM (·.lookupName simple)
  let stats ← columns.mapM ColumnRecord.stats
  pure ⟨List.zipWith Feature.make names stats, norm, dense, embed, wide⟩

def ofStats (columns : List ColumnStats) (norm : NormKind) (dense embed wide : List Int)
    (simple : Bool) : Except Error Assembler := do
  checkKnown (columns.map (·.number)) (dense ++ embed ++ wide)
  pure ⟨columns.map (Feature.ofStats simple), norm, dense, embed, wide⟩

def forLayout (l : Layout) (columns : List ColumnStats) (norm : NormKind) (simple : Bool) :
    Except Error Assembler :=
  ofStats columns norm l.dense l.embed l.wide simple

def feature? (a : Assembler) (id : Int) : Option Feature :=
  a.features.find? (·.stats.number == id)

def keyOf (a : Assembler) (id : Int) : Except Error (Option String) :=
  match a.feature? id with
  | some f => f.key?
  | none => .ok none

def normalized (a : Assembler) (id : Int) (v : Raw) : Except Error Float32 :=
  match a.feature? id with
  | some f => f.stats.normalize a.norm v
  | none => .error .missingKey

def numberOf (a : Assembler) (id : Int) (v : Raw) : Int :=
  match a.feature? id with
  | some f => f.number v
  | none => -1

def columnOf (a : Assembler) (f : Frame) (id : Int) : Except Error (List Raw) := do
  let key ← a.keyOf id
  if key.any f.isShared then throw .notColumn
  pure (f.column key)

def denseInput (a : Assembler) (r : RawRecord) (id : Int) : Except Error Float32 := do
  a.normalized id (r.value (← a.keyOf id))

def indexInput (a : Assembler) (r : RawRecord) (id : Int) : Except Error Int := do
  return a.numberOf id (r.value (← a.keyOf id))

def recordInputs (a : Assembler) (r : RawRecord) : Except Error (Inputs Float32) := do
  return ⟨← a.dense.mapM (a.denseInput r), ← a.embed.mapM (a.indexInput r),
    ← a.wide.mapM (a.indexInput r)⟩

def sparse (columns : List Int) (indices : List Int) : List SparseInput :=
  (columns.zip indices).map fun p => ⟨p.1, p.2⟩

def denseColumn (a : Assembler) (f : Frame) (id : Int) : Except Error (List Float32) := do
  (← a.columnOf f id).mapM (a.normalized id)

def indexColumn (a : Assembler) (f : Frame) (id : Int) : Except Error (List Int) := do
  return (← a.columnOf f id).map (a.numberOf id)

/-- The inputs of all records of a frame, computed column by column. -/
def frameInputs (a : Assembler) (f : Frame) : Except Error (List (Inputs Float32)) := do
  let dense ← a.dense.mapM (a.denseColumn f)
  let embed ← a.embed.mapM (a.indexColumn f)
  let wide ← a.wide.mapM (a.indexColumn f)
  pure ((List.range f.size).map fun i =>
    ⟨dense.map (·.getD i 0), embed.map (·.getD i 0), wide.map (·.getD i 0)⟩)

def batch (a : Assembler) (rows : List (Inputs Float32)) : Batch Float32 :=
  ⟨⟨a.dense.length, rows.map (·.dense)⟩, ⟨a.embed.length, rows.map (·.embed)⟩,
    ⟨a.wide.length, rows.map (·.wide)⟩⟩

end Assembler

end WideDeep
