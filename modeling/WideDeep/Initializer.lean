import WideDeep.Tape
import WideDeep.Text.Case

/-!
# Initial weights

An initializer turns the numbers of a generator into weights, one number for each weight. The bounds
of a range are checked when it is made. The parameters of the other distributions are handed to the
generator as they are given, so what it does not accept among them shows as soon as a weight is drawn.
-/

namespace WideDeep

inductive Initializer where
  | range (low high : Float)
  | gaussian (stddev : Document)
  | uniform (low high : Document)

namespace Document

mutual

/-- The values in lists of lists, with the lengths of the lists by depth; none if lists at one depth
differ in length. -/
def array? : Document → Option (List Nat × List Document)
  | list items => arrayItems? items
  | d => some ([], [d])

def arrayItems? : List Document → Option (List Nat × List Document)
  | [] => some ([0], [])
  | d :: rest =>
    match array? d, arrayItems? rest with
    | some (shape, values), some (n :: restShape, restValues) =>
      if rest.isEmpty || shape == restShape then
        some ((n + 1) :: shape, values ++ restValues)
      else none
    | _, _ => none

end

end Document

namespace Initializer

/-- What an initializer asks a generator for. -/
def law : Initializer → DrawLaw
  | range low high => .uniform (.real low) (.real high)
  | gaussian stddev => .normal (.real 0) stddev
  | uniform low high => .uniform low high

/-- What stands in an array before its places are drawn. -/
def unset : Float32 := 666

/-- One weight. The current value is there for laws that move it, of which there is none. -/
def randomize (init : Initializer) (_current : Float32) (t : Tape) :
    Except Error (Float32 × Tape) := do
  let (x, t) ← t.next init.law
  pure (Binary.narrow x, t)

/-- Put a new weight in each place, one after the other. -/
def randomizeAll (init : Initializer) : List Float32 → Tape → Except Error (List Float32 × Tape)
  | [], t => .ok ([], t)
  | x :: rest, t => do
    let (y, t) ← init.randomize x t
    let (ys, t) ← init.randomizeAll rest t
    pure (y :: ys, t)

/-- A weight on its own. -/
def scalar (init : Initializer) (t : Tape) : Except Error (Float32 × Tape) :=
  init.randomize unset t

/-- Weights for a number of places. A range takes all draws at once, the others draw place by
place. -/
def fill (init : Initializer) (n : Nat) (t : Tape) : Except Error (List Float32 × Tape) :=
  match init with
  | range _ _ => (t.array init.law n).map fun p => (p.1.map Binary.narrow, p.2)
  | _ => init.randomizeAll (List.replicate n unset) t

/-- The number of places beyond which there is no array. -/
def mostPlaces : Nat := 0x2000000000000000

/-- The number of places in an array with given dimensions, none of which may be negative. -/
def places (dims : List Int) : Except Error Nat :=
  let count := dims.foldl (fun n d => n * d.toNat) 1
  if dims.any (· < 0) || mostPlaces ≤ count then .error .invalidValue else .ok count

/-- Weights for an array with given dimensions, row by row. -/
def array (init : Initializer) (dims : List Int) (t : Tape) :
    Except Error (List Float32 × Tape) := do
  init.fill (← places dims) t

/-- Whether a bound is finite. An integer has to fit into a machine word, signed or unsigned. -/
def isFiniteValue : Document → Except Error Bool
  | .bool _ => .ok true
  | .int n =>
    if -0x8000000000000000 ≤ n && n ≤ 0xffffffffffffffff then .ok true else .error .wrongType
  | .real x => .ok (Binary.isFinite x)
  | _ => .error .wrongType

/-- Whether a bound is finite, where lists of lists have to hold one value. -/
def isFiniteBound (d : Document) : Except Error Bool :=
  match d.array? with
  | none => .error .invalidValue
  | some (_, values) => do
    match ← values.mapM isFiniteValue with
    | [finite] => pure finite
    | _ => throw .invalidValue

/-- Whether one bound is above another. Lists of one item compare by their items. -/
def isAbove : Document → Document → Except Error Bool
  | .list [a], .list [b] => isAbove a b
  | a, b => do return (← b.toNumber).less (← a.toNumber)

def makeRange (low high : Document) : Except Error Initializer := do
  let finite ← if ← isFiniteBound low then isFiniteBound high else pure false
  if !finite then throw (.rangeNotFinite low.plain high.plain)
  if ← isAbove low high then throw (.rangeReversed low.plain high.plain)
  pure (range (← (← low.toNumber).toReal) (← (← high.toNumber).toReal))

def ofName (name : String) (low high : Document) : Except Error Initializer :=
  let key := Text.lower name
  if key == "range" then makeRange low high
  else if key == "gaussian" then .ok (gaussian high)
  else if key == "uniform" then .ok (uniform low high)
  else .error (.unknownInitializer key)

/-- The initializer that a document names; one that counts as absent means a range. -/
def make (name low high : Document) : Except Error Initializer :=
  if name.isAbsent then ofName "range" low high
  else
    match name with
    | .text s => ofName s low high
    | _ => .error .notText

end Initializer

end WideDeep
