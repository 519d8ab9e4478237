import WideDeep.Document.Reader
import WideDeep.Frame

/-!
# Reading frames

Records as a JSON text: a list of tables whose values are the raw values.
-/

namespace WideDeep

def Raw.ofDocument : Document → Raw
  | .null => .missing
  | .bool b => .bool b
  | .int n => .int n
  | .real x => .real x
  | .text s => .text s
  | .list _ => .other
  | .table _ => .other

def RawRecord.ofDocument? : Document → Option RawRecord
  | .table entries => some (entries.map fun e => (e.1, Raw.ofDocument e.2))
  | _ => none

def Frame.ofText (storage : Storage) (s : String) : Except Error Frame :=
  match Document.read? s with
  | some (.list items) =>
    match items.mapM RawRecord.ofDocument? with
    | some records => .ok (Frame.ofRecords storage none records)
    | none => .error .wrongType
  | some _ => .error .wrongType
  | none => .error .malformedDocument

end WideDeep
