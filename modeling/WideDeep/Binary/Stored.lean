import WideDeep.Binary.Real

/-!
# Stored numbers

In a file a not-a-number has a sign, which no operation on numbers sees. A stored number is a number
with that sign, so that what is read from a text can be written into a file bit by bit.
-/

namespace WideDeep.Binary

/-- A number as a file holds it. The sign counts for a not-a-number alone. -/
structure Stored (β : Type) where
  value : β
  negativeNan : Bool := false

namespace Stored

variable {β : Type}

/-- A number with a not-a-number taken as positive. -/
def plain (x : β) : Stored β :=
  ⟨x, false⟩

instance [Zero β] : Zero (Stored β) :=
  ⟨plain 0⟩

def narrow (x : Stored Float) : Stored Float32 :=
  ⟨Binary.narrow x.value, x.negativeNan⟩

def widen (x : Stored Float32) : Stored Float :=
  ⟨Binary.widen x.value, x.negativeNan⟩

/-- The sign bit that a not-a-number adds to its pattern. -/
def nanSign (isNan negativeNan : Bool) (sign : Nat) : Nat :=
  if isNan && negativeNan then sign else 0

def bits64 (x : Stored Float) : Nat :=
  nanSign (isNaN x.value) x.negativeNan doubleSign + x.value.toBits.toNat

def bits32 (x : Stored Float32) : Nat :=
  nanSign (isNaN (Binary.widen x.value)) x.negativeNan singleSign + x.value.toBits.toNat

end Stored

end WideDeep.Binary
