import WideDeep.Error
import WideDeep.Decimal.Shortest
import WideDeep.Decimal.Reading

/-!
# Raw values

What a field of a record holds before normalization, read in two ways: as a number and as the key
of a category. Integral numbers share their key with the integer they equal, so a code keeps its
category when it is stored as a floating-point number.
-/

namespace WideDeep

/-- A field of a raw record. `other` is a value that is neither number nor text. -/
inductive Raw where
  | missing
  | bool (value : Bool)
  | int (value : Int)
  | real (value : Float)
  | text (value : String)
  | other
  deriving DecidableEq, Inhabited

namespace Raw

/-- The double nearest to an integer, unless it is out of range. -/
def doubleOfInt? (n : Int) : Except Error Float :=
  let x := Binary.doubleOfInt n
  if Binary.isFinite x then .ok x else .error .overflow

def number (x : Float) : Option Float :=
  if Binary.isNaN x then none else some x

/-- The value read as a number. Only an integer beyond the range of the format is an error. -/
def number? : Raw → Except Error (Option Float)
  | missing => .ok none
  | bool b => .ok (some (if b then 1 else 0))
  | int n => (doubleOfInt? n).map some
  | real x => .ok (number x)
  | text s => .ok ((Decimal.read? (Text.strip s)).bind number)
  | other => .ok none

def shown : Raw → String
  | missing => "None"
  | bool b => if b then "True" else "False"
  | int n => toString n
  | real x => Decimal.render x
  | text s => s
  | other => "[]"

/-- The key under which a category is looked up; none for a missing value. -/
def key? : Raw → Option String
  | missing => none
  | real x =>
    if Binary.isNaN x then none
    else
      match Binary.integer? x with
      | some n => some (toString n)
      | none => some (Decimal.render x)
  | v => some v.shown

/-- Whether the value is missing, not-a-numbers included. -/
def isMissing : Raw → Bool
  | missing => true
  | real x => Binary.isNaN x
  | _ => false

end Raw

end WideDeep
