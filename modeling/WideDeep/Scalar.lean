import WideDeep.Binary.Real

/-!
# Scalars

The network computes over any type of scalars. It runs on single precision numbers; a statement
about exact sums takes a type whose addition is exact.
-/

namespace WideDeep

/-- Numbers that a network computes with. The comparisons are false as soon as a not-a-number takes
part, and `holds` tells whether a finite double is within the range. -/
class Scalar (α : Type) extends Zero α, One α, Add α, Sub α, Mul α, Div α, Neg α where
  exp : α → α
  logOnePlus : α → α
  tanh : α → α
  sqrt : α → α
  less : α → α → Bool
  atMost : α → α → Bool
  ofDouble : Float → α
  holds : Float → Bool

/-- The passage between the numbers `α` of a network and the wider numbers `δ` that collect
errors and gradients of many records. -/
class Precision (α δ : Type) where
  widen : α → δ
  narrow : δ → α

/-- The logarithm of `1 + x` for small `x` as well: the rounding of `1 + x` is divided out. -/
def logOnePlus (x : Float) : Float :=
  let shifted := 1 + x
  if shifted == 1 then x
  else if Binary.isFinite shifted then Float.log shifted * (x / (shifted - 1))
  else Float.log shifted

def largestSingle : Float :=
  Binary.widen (Binary.singleOfPattern false (Binary.single.infinity - 1))

/-- The exponential in single precision. It is less than half the least positive number below -104, and
above 89 it is beyond the largest number. -/
def expSingle (x : Float32) : Float32 :=
  if x < -104 then 0
  else if 89 < x then Binary.singleOfPattern false Binary.single.infinity
  else Float32.exp x

instance : Scalar Float where
  exp := Float.exp
  logOnePlus := logOnePlus
  tanh := Float.tanh
  sqrt := Float.sqrt
  less x y := decide (x < y)
  atMost x y := decide (x ≤ y)
  ofDouble x := x
  holds _ := true

instance : Scalar Float32 where
  exp := expSingle
  logOnePlus x := Binary.narrow (logOnePlus (Binary.widen x))
  tanh := Float32.tanh
  sqrt := Float32.sqrt
  less x y := decide (x < y)
  atMost x y := decide (x ≤ y)
  ofDouble := Binary.narrow
  holds x := !Binary.isFinite x ||
    !(Binary.less largestSingle x || Binary.less x (-largestSingle))

instance : Precision Float32 Float where
  widen := Binary.widen
  narrow := Binary.narrow

def total {α : Type} [Zero α] [Add α] (xs : List α) : α :=
  xs.foldl (· + ·) 0

namespace Blockwise

variable {α : Type} [Zero α] [Add α]

/-- Sums that take the numbers of a list in turn, as long as there is one for each sum, and the
numbers that are left. -/
def takeTurns (sums xs : List α) : List α × List α :=
  if _h : 0 < sums.length ∧ sums.length ≤ xs.length then
    takeTurns (List.zipWith (· + ·) sums (xs.take sums.length)) (xs.drop sums.length)
  else (sums, xs)
termination_by xs.length
decreasing_by
  rw [List.length_drop]
  omega

def pairs : List α → List α
  | a :: b :: rest => (a + b) :: pairs rest
  | xs => xs

/-- The sum of a block: eight sums that take turns, added up in pairs, and the rest one by one. A
block of less than eight numbers is summed from the left. -/
def blockSum (xs : List α) : α :=
  if xs.length < 8 then total xs
  else
    let (sums, rest) := takeTurns (xs.take 8) (xs.drop 8)
    rest.foldl (· + ·) (total (pairs (pairs (pairs sums))))

/-- The sum of a list: one of more than 128 numbers is cut in two halves, the first of which has a
multiple of eight. -/
def sum (xs : List α) : α :=
  if _h : xs.length ≤ 128 then blockSum xs
  else
    let half := xs.length / 2 / 8 * 8
    sum (xs.take half) + sum (xs.drop half)
termination_by xs.length
decreasing_by
  · rw [List.length_take]
    omega
  · rw [List.length_drop]
    omega

end Blockwise

end WideDeep
