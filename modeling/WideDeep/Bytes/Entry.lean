import WideDeep.Bytes.Reader
import WideDeep.Document

/-!
# Entries of streams

An entry is a value as it is handed to the writer of its kind, before it is converted to what the
stream holds. To read it, only its kind has to be known, and for singles their number, which no stream
holds.
-/

namespace WideDeep

/-- A value to be written. Any document may stand for a truth value. -/
inductive Entry where
  | int (value : Int)
  | bool (value : Document)
  | single (value : Binary.Stored Float)
  | double (value : Binary.Stored Float)
  | text (value : Option String)
  | singles (values : List (Binary.Stored Float))
  | doubles (values : List (Binary.Stored Float))
  | ints (values : List Int)

/-- What has to be known of an entry to read it. -/
inductive Request where
  | int
  | bool
  | single
  | double
  | text
  | singles (count : Int)
  | doubles
  | ints

/-- What is read for an entry. -/
inductive ReadValue where
  | int (value : Int)
  | bool (value : Bool)
  | single (value : Float32)
  | double (value : Float)
  | text (value : String)
  | singles (values : List Float32)
  | doubles (values : List Float)
  | ints (values : List Int)

namespace Entry

/-- The field that is written. Singles are first rounded into an array, those too large to infinity,
and there is no array whose bytes a machine word cannot count. -/
def field : Entry → Field
  | int n => .int n
  | bool d => .bool (!d.isAbsent)
  | single x => .single x
  | double x => .double x
  | text s => .text s
  | singles xs =>
    if xs.length * 4 < 0x8000000000000000 then .singles (xs.map Binary.Stored.narrow)
    else .refused .invalidValue
  | doubles xs => .doubles xs
  | ints ns => .ints ns

def request : Entry → Request
  | int _ => .int
  | bool _ => .bool
  | single _ => .single
  | double _ => .double
  | text _ => .text
  | singles xs => .singles xs.length
  | doubles _ => .doubles
  | ints _ => .ints

/-- The value of an entry: a truth value for any document, a text for none at all, and singles in
their precision. There is only one not-a-number here, so its sign does not count. -/
def value : Entry → ReadValue
  | int n => .int n
  | bool d => .bool (!d.isAbsent)
  | single x => .single (Binary.narrow x.value)
  | double x => .double x.value
  | text s => .text (s.getD "")
  | singles xs => .singles (xs.map fun x => Binary.narrow x.value)
  | doubles xs => .doubles (xs.map fun x => x.value)
  | ints ns => .ints ns

/-- Write entries one after the other. -/
def writeAll (es : List Entry) : Except Error Bytes :=
  Field.encodeAll (es.map field)

end Entry

namespace Request

def read : Request → Reader ReadValue
  | int => return .int (← Reader.int)
  | bool => return .bool (← Reader.bool)
  | single => return .single (← Reader.single)
  | double => return .double (← Reader.double)
  | text => return .text (← Reader.text)
  | singles count => return .singles (← Reader.singles count)
  | doubles => return .doubles (← Reader.doubles)
  | ints => return .ints (← Reader.ints)

/-- Read entries one after the other. -/
def readAll : List Request → Reader (List ReadValue)
  | [] => pure []
  | r :: rest => do
    let first ← r.read
    return first :: (← readAll rest)

end Request

end WideDeep
