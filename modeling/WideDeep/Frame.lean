import WideDeep.Raw

/-!
# Frames

A frame holds records by column. How the values of a column are stored is up to the library that the
frame comes from: in some columns integers become floating-point numbers, and all other columns keep
each value as it is.
-/

namespace WideDeep

abbrev RawRecord := List (String × Raw)

namespace RawRecord

def value (r : RawRecord) (name : Option String) : Raw :=
  ((name.bind fun n => r.lookup n)).getD .missing

end RawRecord

/-- A rule for storing columns: whether the integers of a column become floating-point numbers. The
column is given by the values of the records, where `none` stands for a record without the column. -/
structure Storage where
  makesReal : List (Option Raw) → Bool

/-- What has been seen of the values of a column. -/
structure ColumnScan where
  gap : Bool := false
  truth : Bool := false
  real : Bool := false
  integer : Bool := false
  large : Bool := false
  negative : Bool := false

namespace ColumnScan

/-- Add an integer. It has to fit into a machine word, signed or unsigned, together with the other
integers; if it does not, the column is mixed, whether a gap came before it or not. -/
def addInteger (s : ColumnScan) (n : Int) : Option ColumnScan :=
  let large := s.large || 0x7fffffffffffffff < n
  let negative := s.negative || n < 0
  if (large && negative) || 0xffffffffffffffff < n || n < -0x8000000000000000 then none
  else some { s with integer := true, large, negative }

/-- Go through the values of a column. The scan ends at the first value that makes the column
mixed. -/
def scan (s : ColumnScan) : List (Option Raw) → Option ColumnScan
  | [] => some s
  | cell :: rest =>
    match cell with
    | none => scan { s with gap := true } rest
    | some .missing => scan { s with gap := true } rest
    | some (.bool _) => scan { s with truth := true } rest
    | some (.real _) => scan { s with real := true } rest
    | some (.int n) => (s.addInteger n).bind fun s => scan s rest
    | some (.text _) => none
    | some .other => none

/-- Whether the integers of a column become floating-point numbers. -/
def makesReal (s : ColumnScan) : Bool :=
  s.integer && !s.truth && (s.gap || s.real)

end ColumnScan

/-- The rule in use. A column whose values are all numbers is stored as numbers of one kind: its integers
become floating-point numbers if they stand beside other numbers or beside gaps. -/
def Storage.scanned : Storage :=
  ⟨fun cells => (ColumnScan.scan {} cells).any ColumnScan.makesReal⟩

def Raw.toReal : Raw → Raw
  | .int n => .real (Binary.doubleOfInt n)
  | v => v

def storeColumn (storage : Storage) (cells : List (Option Raw)) : List Raw :=
  let values := cells.map (·.getD .missing)
  if storage.makesReal cells then values.map Raw.toReal else values

structure Frame where
  size : Nat
  columns : List (String × List Raw)

namespace Frame

/-- The names that occur in records, each once. -/
def namesOf (records : List RawRecord) : List String :=
  (records.flatMap fun r => r.map (·.1)).eraseDups

/-- The frame of records, with given columns or with all that occur. -/
def ofRecords (storage : Storage) (names : Option (List String)) (records : List RawRecord) : Frame :=
  ⟨records.length, (names.getD (namesOf records)).map fun name =>
    (name, storeColumn storage (records.map fun r => r.lookup name))⟩

/-- Whether several columns share a name, so that it names no single one. -/
def isShared (f : Frame) (name : String) : Bool :=
  1 < (f.columns.filter (·.1 == name)).length

def column (f : Frame) (name : Option String) : List Raw :=
  (name.bind fun n => f.columns.lookup n).getD (List.replicate f.size .missing)

def filter (f : Frame) (keep : List Bool) : Frame :=
  let kept (values : List Raw) : List Raw := ((values.zip keep).filter (·.2)).map (·.1)
  ⟨(keep.filter id).length, f.columns.map fun c => (c.1, kept c.2)⟩

end Frame

end WideDeep
