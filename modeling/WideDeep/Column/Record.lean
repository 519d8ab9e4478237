import WideDeep.Column.Stats
import WideDeep.Document.Reader

/-!
# Column statistics as documents

Statistics come as tables of a document. Numbers may be written as texts, absent lists are empty,
and the name and the labels are taken as they are: only when they are used do they have to be
texts.
-/

namespace WideDeep

namespace Document

def toReal : Document → Except Error Float
  | bool b => .ok (if b then 1 else 0)
  | int n => Raw.doubleOfInt? n
  | real x => .ok x
  | text s =>
    match Decimal.read? s with
    | some x => .ok x
    | none => .error .invalidValue
  | _ => .error .wrongType

/-- A document read as an integer, fractions cut off. -/
def toInt : Document → Except Error Int
  | bool b => .ok (if b then 1 else 0)
  | int n => .ok n
  | real x =>
    match Binary.truncate? x with
    | some n => .ok n
    | none => .error (if Binary.isNaN x then .invalidValue else .overflow)
  | text s =>
    match Decimal.readInt? s with
    | some n => .ok n
    | none => .error .invalidValue
  | _ => .error .wrongType

/-- A document taken as an integer, where the truth values count as one and zero. Nothing else is
one. -/
def toWhole : Document → Except Error Int
  | bool b => .ok (if b then 1 else 0)
  | int n => .ok n
  | _ => .error .wrongType

/-- A document read as a sequence: the characters of a text, the keys of a table. -/
def toItems : Document → Except Error (List Document)
  | list items => .ok items
  | text s => .ok (s.toList.map fun c => text (String.singleton c))
  | table entries => .ok (entries.map fun e => text e.1)
  | _ => .error .wrongType

/-- A document read as a number, where a not-a-number keeps the sign that a text gives it. -/
def toStored (d : Document) : Except Error (Binary.Stored Float) :=
  match d with
  | text s =>
    match Decimal.readStored? s with
    | some x => .ok x
    | none => .error .invalidValue
  | d => d.toReal.map Binary.Stored.plain

def storedAt (d : Document) (key : String) (default : Float) :
    Except Error (Binary.Stored Float) :=
  match d.get? key with
  | some v => v.toStored
  | none => .ok (.plain default)

/-- A list under a key; whatever is absent or empty is the empty list. -/
def itemsAt (d : Document) (key : String) : Except Error (List Document) :=
  match d.get? key with
  | some v => if v.isAbsent then .ok [] else v.toItems
  | none => .ok []

end Document

/-- Statistics as they are given: name and labels are any documents. -/
abbrev ColumnRecord := ColumnStatsOf Document (Binary.Stored Float)

namespace ColumnStatsOf

variable {L N : Type}

/-- Check that the weights of evidence fit the bins, the plain ones first. -/
def make (shownName : String) (number : Int) (name : Option L) (kind : ColumnKind)
    (mean stddev cutoff : N) (boundaries : List N) (labels : List L)
    (countEvidence weightedEvidence : List N)
    (evidenceMean evidenceStddev weightedMean weightedStddev : N) :
    Except Error (ColumnStatsOf L N) :=
  let bins := kind.numBins boundaries.length labels.length
  if hc : evidenceFits countEvidence.length bins = true then
    if hw : evidenceFits weightedEvidence.length bins = true then
      .ok ⟨number, name, kind, mean, stddev, cutoff, boundaries, labels, countEvidence,
        weightedEvidence, evidenceMean, evidenceStddev, weightedMean, weightedStddev, hc, hw⟩
    else .error (.evidenceCount number shownName .weighted weightedEvidence.length (bins + 1))
  else .error (.evidenceCount number shownName .count countEvidence.length (bins + 1))

end ColumnStatsOf

namespace ColumnRecord

def field (d : Document) (key : String) : Except Error Document :=
  match d.get? key with
  | some v => .ok v
  | none => .error .missingKey

def ofDocument (d : Document) : Except Error ColumnRecord := do
  match d with
  | .table _ => pure ()
  | _ => throw .wrongType
  let number ← (← field d "columnNum").toInt
  let name ← field d "columnName"
  let letter := (d.get? "columnType").getD (.text "N")
  let mean ← d.storedAt "mean" 0
  let stddev ← d.storedAt "stdDev" 1
  let cutoff ← d.storedAt "cutoff" 4
  let boundaries ← (← d.itemsAt "binBoundary").mapM Document.toStored
  let labels ← d.itemsAt "binCategory"
  let countEvidence ← (← d.itemsAt "binCountWoe").mapM Document.toStored
  let weightedEvidence ← (← d.itemsAt "binWeightedWoe").mapM Document.toStored
  let evidenceMean ← d.storedAt "woeMean" 0
  let evidenceStddev ← d.storedAt "woeStddev" 1
  let weightedMean ← d.storedAt "woeWgtMean" 0
  let weightedStddev ← d.storedAt "woeWgtStddev" 1
  let kind ←
    match letter with
    | .text s =>
      match ColumnKind.ofLetter? s with
      | some k => pure k
      | none => throw (.unknownColumnType letter.shown number)
    | _ => throw (.unknownColumnType letter.shown number)
  let held :=
    match name with
    | .null => none
    | v => some v
  ColumnStatsOf.make name.plain number held kind mean stddev cutoff boundaries labels
    countEvidence weightedEvidence evidenceMean evidenceStddev weightedMean weightedStddev

def toDocument (c : ColumnRecord) : Document :=
  let real (x : Binary.Stored Float) : Document := .real x.value
  let reals (xs : List (Binary.Stored Float)) : Document := .list (xs.map real)
  .table
    [("columnNum", .int c.number), ("columnName", c.name.getD .null),
     ("columnType", .text c.kind.letter), ("mean", real c.mean), ("stdDev", real c.stddev),
     ("cutoff", real c.cutoff), ("binBoundary", reals c.boundaries),
     ("binCategory", .list c.labels), ("binCountWoe", reals c.countEvidence),
     ("binWeightedWoe", reals c.weightedEvidence), ("woeMean", real c.evidenceMean),
     ("woeStddev", real c.evidenceStddev), ("woeWgtMean", real c.weightedMean),
     ("woeWgtStddev", real c.weightedStddev)]

def listOfDocument (d : Document) : Except Error (List ColumnRecord) := do
  (← d.toItems).mapM ofDocument

def listOfText (s : String) : Except Error (List ColumnRecord) :=
  match Document.read? s with
  | some d => listOfDocument d
  | none => .error .malformedDocument

/-- Whether a list or a table has a text among its items or keys. -/
def holds (mark : String) : Document → Bool
  | .list items => (items.filterMap Document.text?).contains mark
  | .table entries => (entries.lookup mark).isSome
  | _ => false

/-- A label as a text. What is none is refused; lists and tables are first searched for the mark
between synonyms. -/
def labelText (d : Document) : Except Error String :=
  match d with
  | .text s => .ok s
  | d => .error (if holds "@^" d then .notText else .wrongType)

/-- Statistics for finding bins, where the labels have to be texts. The name takes no part. -/
def stats (c : ColumnRecord) : Except Error ColumnStats := do
  let _ ← c.labels.mapM labelText
  pure ({ c with name := none }.map (fun d => ((labelText d).toOption).getD "")
    fun x : Binary.Stored Float => x.value)

/-- A name without its name space. What counts as absent is kept as it is, and so are lists and
tables, unless they hold the mark of a name space. -/
def withoutNamespace (name : Document) : Except Error Document :=
  match name with
  | .text s => .ok (.text (WideDeep.simpleName s))
  | .list items =>
    if holds "::" (.list items) then .error .notText else .ok (.list items)
  | .table entries =>
    if holds "::" (.table entries) then .error .notText else .ok (.table entries)
  | d => if d.isAbsent then .ok d else .error .wrongType

/-- The name of a column without its name space. -/
def simpleName (c : ColumnRecord) : Except Error Document :=
  withoutNamespace (c.name.getD .null)

/-- The name under which records hold the column: with its name space or without. -/
def lookupName (c : ColumnRecord) (simple : Bool) : Except Error Document :=
  if simple then c.simpleName else .ok (c.name.getD .null)

end ColumnRecord

/-- Statistics with texts as they may be given. -/
def ColumnStats.toRecord (c : ColumnStats) : ColumnRecord :=
  c.map .text Binary.Stored.plain

def ColumnStats.toDocument (c : ColumnStats) : Document :=
  c.toRecord.toDocument

end WideDeep
