import WideDeep.Number

/-!
# Generators of random numbers

Randomness enters with a generator that is handed in. It is asked for numbers of a law, whose
parameters it gets as they are, and has one number of each law at each of its positions. It may refuse
parameters. An array takes one number for each of its places, one position after the other.
-/

namespace WideDeep

/-- What a generator is asked for. -/
inductive DrawLaw where
  | uniform (low high : Document)
  | normal (mean stddev : Document)

/-- The numbers of each law by position, and the position of the next one. -/
structure Tape where
  draws : DrawLaw → Except Error (Nat → Float)
  position : Nat

namespace Tape

/-- A number of a law. -/
def next (law : DrawLaw) (t : Tape) : Except Error (Float × Tape) := do
  let f ← t.draws law
  pure (f t.position, { t with position := t.position + 1 })

def take (f : Nat → Float) : Nat → Tape → List Float × Tape
  | 0, t => ([], t)
  | n + 1, t =>
    let (rest, last) := take f n { t with position := t.position + 1 }
    (f t.position :: rest, last)

/-- Numbers of a law for an array with so many places. The parameters count even if there is no
place. -/
def array (law : DrawLaw) (n : Nat) (t : Tape) : Except Error (List Float × Tape) := do
  return take (← t.draws law) n t

/-- A parameter as a double. -/
def parameter (d : Document) : Except Error Float := do
  (← d.toNumber).toReal

/-- The point of an interval at a fraction of its length. -/
def between (low span u : Float) : Float :=
  low + span * u

/-- A scripted generator that goes through fractions with steps of one 251st. It subtracts bounds as
the numbers they are, and its normal numbers are spread evenly over four deviations. -/
def linear (mul add : Int) : Tape :=
  let fraction (k : Nat) : Float := Binary.doubleOfInt ((add + mul * (k : Int)) % 251) / 251
  let draws : DrawLaw → Except Error (Nat → Float)
    | .uniform low high => do
      let l ← low.toNumber
      let span ← (← (← high.toNumber).sub l).toReal
      let start ← l.toReal
      pure fun k => between start span (fraction k)
    | .normal mean stddev => do
      let m ← parameter mean
      let s ← parameter stddev
      pure fun k => m + s * (4 * fraction k - 2)
  ⟨draws, 0⟩

/-- Whether a number is below zero, where a negative zero is. -/
def isNegative (x : Float) : Bool :=
  match Binary.shape x with
  | .finite negative _ _ => negative
  | .infinite negative => negative
  | .nan => false

/-- A generator that reads its parameters as doubles and goes through fractions of the unit interval.
It refuses an interval whose length is not finite and a negative deviation. A normal number takes two
fractions. -/
def ofFractions (fraction : Nat → Float) : Tape :=
  let draws : DrawLaw → Except Error (Nat → Float)
    | .uniform low high => do
      let l ← parameter low
      let h ← parameter high
      if !Binary.isFinite (h - l) then throw .overflow
      pure fun k => between l (h - l) (fraction k)
    | .normal mean stddev => do
      let m ← parameter mean
      let s ← parameter stddev
      if isNegative s then throw .invalidValue
      let radius (k : Nat) : Float := Float.sqrt (-2 * Float.log (1 - fraction (2 * k)))
      let angle (k : Nat) : Float := 6.283185307179586 * fraction (2 * k + 1)
      pure fun k => m + s * (radius k * Float.cos (angle k))
  ⟨draws, 0⟩

/-- A scrambled machine word: shifts and odd factors, each of which can be undone. -/
def scrambled (n : UInt64) : UInt64 :=
  let n := (n ^^^ (n >>> 30)) * 0xbf58476d1ce4e5b9
  let n := (n ^^^ (n >>> 27)) * 0x94d049bb133111eb
  n ^^^ (n >>> 31)

/-- The generator that a seed determines: fraction `k` is the upper 53 bits of the scrambled seed,
moved on by `k + 1` steps of an odd length. -/
def seeded (seed : UInt64) : Tape :=
  let word (k : Nat) : UInt64 := scrambled (seed + UInt64.ofNat (k + 1) * 0x9e3779b97f4a7c15)
  ofFractions fun k => Binary.nearestDouble false ((word k) >>> 11).toNat 9007199254740992

end Tape

end WideDeep
