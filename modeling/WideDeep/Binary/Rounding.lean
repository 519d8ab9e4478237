/-!
# Rounding to binary numbers

The bit patterns of a binary format, sign aside, are natural numbers in the order of the values
they stand for. `Format.nearest` gives the pattern of the number nearest to a ratio, and
`Format.parts?` reads a pattern back as significand and exponent.
-/

namespace WideDeep.Binary

/-- The floor of the binary logarithm of `num / den`, for positive arguments. -/
def log2Ratio (num den : Nat) : Int :=
  let k : Int := (Nat.log2 num : Int) - (Nat.log2 den : Int)
  let fits := if 0 ≤ k then den <<< k.toNat ≤ num else den ≤ num <<< (-k).toNat
  if fits then k else k - 1

/-- The integer nearest to `num / den`; a half goes to the even neighbour. -/
def roundHalfEven (num den : Nat) : Nat :=
  let q := num / den
  let r := num % den
  if 2 * r < den then q
  else if den < 2 * r then q + 1
  else if q % 2 == 0 then q else q + 1

/-- A binary format: its significands have `width` bits, its last place is never below
`2 ^ lowest`, and `infinity` is the pattern above all finite ones. -/
structure Format where
  width : Nat
  lowest : Int
  infinity : Nat

def single : Format := ⟨24, -149, 0x7f800000⟩

def double : Format := ⟨53, -1074, 0x7ff0000000000000⟩

namespace Format

/-- The pattern of the number nearest to `num / den`, ties to the even pattern. What rounds past
the largest number is infinite. -/
def nearest (f : Format) (num den : Nat) : Nat :=
  if num = 0 then 0
  else
    let place := log2Ratio num den - ((f.width : Int) - 1)
    let last := if place < f.lowest then f.lowest else place
    let significand :=
      if 0 ≤ last then roundHalfEven num (den <<< last.toNat)
      else roundHalfEven (num <<< (-last).toNat) den
    let pattern := ((last - f.lowest).toNat <<< (f.width - 1)) + significand
    if f.infinity ≤ pattern then f.infinity else pattern

/-- Significand `m` and exponent `e` of the finite number `m * 2 ^ e` with this pattern. -/
def parts? (f : Format) (pattern : Nat) : Option (Nat × Int) :=
  if f.infinity ≤ pattern then none
  else
    let hidden := 1 <<< (f.width - 1)
    let exponent := pattern / hidden
    if exponent = 0 then some (pattern, f.lowest)
    else some (hidden + pattern % hidden, f.lowest + (exponent : Int) - 1)

end Format

/-- The ratio `m * 2 ^ e` as numerator and denominator. -/
def dyadic (m : Nat) (e : Int) : Nat × Nat :=
  if 0 ≤ e then (m <<< e.toNat, 1) else (m, 1 <<< (-e).toNat)

end WideDeep.Binary
