import WideDeep.Binary.Rounding

/-!
# Single and double precision numbers

Reading a number as sign, significand and exponent, rounding exact values to it, and the passage
between the two precisions. Comparison goes through `rank`, which puts the numbers on the integer
line, so that order facts are facts on integers.
-/

namespace WideDeep.Binary

/-- What a floating-point number stands for: `finite neg m e` is `m * 2 ^ e` with a sign. -/
inductive Shape where
  | nan
  | infinite (negative : Bool)
  | finite (negative : Bool) (significand : Nat) (exponent : Int)
  deriving DecidableEq

def Format.shape (f : Format) (negative : Bool) (pattern : Nat) : Shape :=
  match f.parts? pattern with
  | some (m, e) => .finite negative m e
  | none => if pattern = f.infinity then .infinite negative else .nan

def doubleSign : Nat := 0x8000000000000000

def singleSign : Nat := 0x80000000

def doubleOfPattern (negative : Bool) (pattern : Nat) : Float :=
  Float.ofBits (UInt64.ofNat (if negative then doubleSign + pattern else pattern))

def singleOfPattern (negative : Bool) (pattern : Nat) : Float32 :=
  Float32.ofBits (UInt32.ofNat (if negative then singleSign + pattern else pattern))

def shape (x : Float) : Shape :=
  let bits := x.toBits.toNat
  if bits < doubleSign then double.shape false bits else double.shape true (bits - doubleSign)

def shape32 (x : Float32) : Shape :=
  let bits := x.toBits.toNat
  if bits < singleSign then single.shape false bits else single.shape true (bits - singleSign)

def nearestDouble (negative : Bool) (num den : Nat) : Float :=
  doubleOfPattern negative (double.nearest num den)

def nearestSingle (negative : Bool) (num den : Nat) : Float32 :=
  singleOfPattern negative (single.nearest num den)

def doubleOfInt (n : Int) : Float :=
  nearestDouble (n < 0) n.natAbs 1

def nan : Float := Float.ofBits 0x7ff8000000000000

def nan32 : Float32 := Float32.ofBits 0x7fc00000

def infinity (negative : Bool) : Float := doubleOfPattern negative double.infinity

def narrow (x : Float) : Float32 :=
  match shape x with
  | .nan => nan32
  | .infinite s => singleOfPattern s single.infinity
  | .finite s m e => let (num, den) := dyadic m e; nearestSingle s num den

/-- A single precision number in double precision, exactly. -/
def widen (x : Float32) : Float :=
  match shape32 x with
  | .nan => nan
  | .infinite s => doubleOfPattern s double.infinity
  | .finite s m e => let (num, den) := dyadic m e; nearestDouble s num den

def isNaN (x : Float) : Bool :=
  match shape x with
  | .nan => true
  | _ => false

def isFinite (x : Float) : Bool :=
  match shape x with
  | .finite _ _ _ => true
  | _ => false

/-- The place of a number on the integer line: two numbers compare as their ranks do, and the two
zeros share a rank. A not-a-number has none. -/
def rank (x : Float) : Option Int :=
  let bits := x.toBits.toNat
  if bits < doubleSign then if bits ≤ double.infinity then some bits else none
  else if bits - doubleSign ≤ double.infinity then some (-((bits - doubleSign : Nat) : Int))
  else none

/-- Strict order of numbers; false as soon as a not-a-number takes part. -/
def less (x y : Float) : Bool :=
  match rank x, rank y with
  | some a, some b => a < b
  | _, _ => false

/-- The integer that a number equals, if it equals one. -/
def integer? (x : Float) : Option Int :=
  match shape x with
  | .finite s m e =>
    let (num, den) := dyadic m e
    if num % den = 0 then
      let n : Int := (num / den : Nat)
      some (if s then -n else n)
    else none
  | _ => none

/-- A number without its fraction, toward zero. -/
def truncate? (x : Float) : Option Int :=
  match shape x with
  | .finite s m e =>
    let (num, den) := dyadic m e
    let n : Int := (num / den : Nat)
    some (if s then -n else n)
  | _ => none

end WideDeep.Binary
