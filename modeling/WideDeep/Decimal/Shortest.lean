import WideDeep.Binary.Real
import WideDeep.Text.Digit

/-!
# Shortest decimal text of a number

The shortest digits are the fewest that read back as the same number; among equally few the
nearest are taken. Their layout is positional between `1e-4` and `1e16` and scientific outside.
-/

namespace WideDeep.Decimal

open Binary

def patternOf (d : Nat) (k : Int) : Nat :=
  if 0 ≤ k then double.nearest (d * Nat.pow 10 k.toNat) 1
  else double.nearest d (Nat.pow 10 (-k).toNat)

/-- The least `k` with `num / den < 10 ^ k`, found upward from a bound that is too small. -/
def pointFrom (num den : Nat) : Nat → Int → Int
  | 0, k => k
  | fuel + 1, k =>
    let below :=
      if 0 ≤ k then num < den * Nat.pow 10 k.toNat else num * Nat.pow 10 (-k).toNat < den
    if below then k else pointFrom num den fuel (k + 1)

/-- Where the decimal point of a positive ratio stands: `10 ^ (k - 1) ≤ num / den < 10 ^ k`. -/
def point (num den : Nat) : Int :=
  let start := log2Ratio num den * 30103 / 100000 - 2
  pointFrom num den 8 start

/-- Of the two grid points `d` and `d + 1` around `num / den` in units of `10 ^ k`, those that
have the given pattern, the nearer first; of two that are equally near the even one. -/
def neighbours (pattern num den : Nat) (k : Int) : List Nat :=
  let (n, d) :=
    if 0 ≤ k then (num, den * Nat.pow 10 k.toNat) else (num * Nat.pow 10 (-k).toNat, den)
  let below := n / d
  let down := 2 * (n % d) < d || (2 * (n % d) == d && below % 2 == 0)
  let candidates := if down then [below, below + 1] else [below + 1, below]
  candidates.filter fun c => patternOf c k == pattern

/-- Try ever more digits until a grid point has the pattern. -/
def search (pattern num den : Nat) (point : Int) : Nat → Nat → Nat × Int
  | 0, n => (num / den, point - n)
  | fuel + 1, n =>
    match neighbours pattern num den (point - n) with
    | d :: _ => (d, point - n)
    | [] => search pattern num den point fuel (n + 1)

def dropZeros : Nat → Nat × Int → Nat × Int
  | 0, p => p
  | fuel + 1, (d, k) => if d % 10 = 0 ∧ d ≠ 0 then dropZeros fuel (d / 10, k + 1) else (d, k)

/-- The shortest `d` and `k` for which `d * 10 ^ k` reads back as `m * 2 ^ e`, not zero. -/
def shortest (m : Nat) (e : Int) : Nat × Int :=
  let (num, den) := dyadic m e
  dropZeros 20 (search (double.nearest num den) num den (point num den) 17 1)

def digits (n : Nat) : List Char :=
  Nat.toDigits 10 n

/-- Digits with a decimal point after the first `place` of them, padded with zeros on either side
and with one digit at least on each. -/
def positional (ds : List Char) (place : Int) : List Char :=
  if place ≤ 0 then ['0', '.'] ++ List.replicate (-place).toNat '0' ++ ds
  else
    let n := place.toNat
    if ds.length ≤ n then ds ++ List.replicate (n - ds.length) '0' ++ ['.', '0']
    else ds.take n ++ ['.'] ++ ds.drop n

/-- Digits with the point after the first, and an exponent of two digits at least. -/
def scientific (ds : List Char) (place : Int) : List Char :=
  let exponent := place - 1
  let es := digits exponent.natAbs
  let padded := if es.length < 2 then '0' :: es else es
  ds.take 1 ++ (if ds.length ≤ 1 then [] else '.' :: ds.drop 1) ++
    ['e', if exponent < 0 then '-' else '+'] ++ padded

def render (x : Float) : String :=
  match shape x with
  | .nan => "nan"
  | .infinite s => if s then "-inf" else "inf"
  | .finite s m e =>
    let body :=
      if m = 0 then ['0', '.', '0']
      else
        let (d, k) := shortest m e
        let ds := digits d
        let place := (ds.length : Int) + k
        if -4 < place ∧ place ≤ 16 then positional ds place else scientific ds place
    String.ofList (if s then '-' :: body else body)

end WideDeep.Decimal
