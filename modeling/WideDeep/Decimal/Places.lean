import WideDeep.Decimal.Shortest

/-!
# Decimal text with a given number of digits

A number rounded to a fixed number of places behind the point, or to a number of significant
digits in scientific form. The exact value is rounded, a half to the even digit.
-/

namespace WideDeep.Decimal

open Binary

def units (num den : Nat) (k : Int) : Nat :=
  if 0 ≤ k then roundHalfEven num (den * Nat.pow 10 k.toNat)
  else roundHalfEven (num * Nat.pow 10 (-k).toNat) den

def padded (width n : Nat) : List Char :=
  let ds := digits n
  List.replicate (width - ds.length) '0' ++ ds

def fixedRatio (places num den : Nat) : List Char :=
  let ds := padded (places + 1) (units num den (-(places : Int)))
  let whole := ds.length - places
  ds.take whole ++ (if places = 0 then [] else '.' :: ds.drop whole)

/-- A positive ratio with `count` significant digits. Rounding may lead to the next power of ten. -/
def significantRatio (count num den : Nat) : List Char :=
  let place := point num den
  let rounded := units num den (place - count)
  if rounded < Nat.pow 10 count then scientific (digits rounded) place
  else scientific (digits (rounded / 10)) (place + 1)

/-- The text of a number, its magnitude written by `body` from a ratio. -/
def withBody (body : Nat → Nat → List Char) (x : Float) : String :=
  match shape x with
  | .nan => "nan"
  | .infinite s => if s then "-inf" else "inf"
  | .finite s m e =>
    let (num, den) := dyadic m e
    String.ofList ((if s then ['-'] else []) ++ body num den)

def fixed (places : Nat) (x : Float) : String :=
  withBody (fixedRatio places) x

/-- A number with `count` significant digits; zero is written as so many zeros. -/
def significant (count : Nat) (x : Float) : String :=
  withBody
    (fun num den =>
      if num = 0 then scientific (List.replicate count '0') 1 else significantRatio count num den)
    x

end WideDeep.Decimal
