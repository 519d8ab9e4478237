import WideDeep.Document
import WideDeep.Raw

/-!
# Numbers

A number as a setting holds it: an integer of any size or a double. Numbers compare by their exact
values, and a difference of integers is an integer.
-/

namespace WideDeep

/-- An integer of any size, or a double. -/
inductive Number where
  | int (value : Int)
  | real (value : Float)

/-- Where a double stands beside an integer; a not-a-number stands nowhere. -/
def Binary.compareInt? (x : Float) (n : Int) : Option Ordering :=
  match shape x with
  | .nan => none
  | .infinite negative => some (if negative then .lt else .gt)
  | .finite negative m e =>
    let (num, den) := dyadic m e
    let signed : Int := if negative then -(num : Int) else num
    some (compare signed (n * den))

namespace Number

/-- The double nearest to a number. An integer beyond the range of doubles has none. -/
def toReal : Number → Except Error Float
  | int n => Raw.doubleOfInt? n
  | real x => .ok x

/-- The single precision number nearest to a number. -/
def toSingle : Number → Float32
  | int n => Binary.nearestSingle (n < 0) n.natAbs 1
  | real x => Binary.narrow x

/-- The order of two numbers by their exact values; a not-a-number has no place in it. -/
def compare? : Number → Number → Option Ordering
  | int m, int n => some (compare m n)
  | int m, real y => (Binary.compareInt? y m).map Ordering.swap
  | real x, int n => Binary.compareInt? x n
  | real x, real y =>
    match Binary.rank x, Binary.rank y with
    | some a, some b => some (compare a b)
    | _, _ => none

def less (a b : Number) : Bool :=
  a.compare? b == some .lt

def atMost (a b : Number) : Bool :=
  a.less b || a.compare? b == some .eq

/-- The difference of two numbers: of integers an integer, and else a double. -/
def sub : Number → Number → Except Error Number
  | int m, int n => .ok (int (m - n))
  | a, b => do return real ((← a.toReal) - (← b.toReal))

end Number

namespace Document

def toNumber : Document → Except Error Number
  | bool b => .ok (.int (if b then 1 else 0))
  | int n => .ok (.int n)
  | real x => .ok (.real x)
  | _ => .error .wrongType

end Document

end WideDeep
