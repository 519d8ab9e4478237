import WideDeep.Error

/-!
# Bits

Compressed data is read bit by bit, the least significant bit of each byte first.
-/

namespace WideDeep.Gzip

inductive Fault where
  | truncated
  | invalid
  deriving DecidableEq

abbrev Bits := List Bool

/-- The bits of a byte, least significant first. -/
def bitsOfByte (b : UInt8) : Bits :=
  (List.range 8).map b.toNat.testBit

def bitsOf (bytes : List UInt8) : Bits :=
  bytes.flatMap bitsOfByte

/-- The number that bits stand for, least significant first. -/
def valueOf : Bits → Nat
  | [] => 0
  | b :: rest => b.toNat + 2 * valueOf rest

def takeBits (n : Nat) (bits : Bits) : Except Fault (Nat × Bits) :=
  let taken := bits.take n
  if taken.length < n then .error .truncated else .ok (valueOf taken, bits.drop n)

/-- Drop the bits up to the next byte. All bytes are whole at the end of the data. -/
def align (bits : Bits) : Bits :=
  bits.drop (bits.length % 8)

end WideDeep.Gzip
