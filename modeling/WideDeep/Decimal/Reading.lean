import WideDeep.Binary.Stored
import WideDeep.Text.Blank
import WideDeep.Text.Digit

/-!
# Reading numbers from text

A number may be surrounded by blanks, its digits may belong to any script, and single underscores
may stand between digits. Values are rounded correctly, whatever the number of digits.
-/

namespace WideDeep.Decimal

open Binary Text

/-- Two-valued test without case: a text of lower-case ASCII letters against any text. -/
def matchesWord (word cs : List Char) : Bool :=
  cs.length == word.length &&
    (cs.zip word).all fun (c, w) =>
      c == w || (65 ≤ c.toNat && c.toNat ≤ 90 && c.toNat + 32 == w.toNat)

/-- The double nearest to `± m * 10 ^ k`. Far beyond the range of the format the power is not
computed. -/
def round (negative : Bool) (m : Nat) (k : Int) : Float :=
  if m = 0 then doubleOfPattern negative 0
  else if 400 < k then infinity negative
  else if k + (Nat.log2 m : Int) + 1 < -400 then doubleOfPattern negative 0
  else if 0 ≤ k then nearestDouble negative (m * Nat.pow 10 k.toNat) 1
  else nearestDouble negative m (Nat.pow 10 (-k).toNat)

def sign : List Char → Bool × List Char
  | '-' :: cs => (true, cs)
  | '+' :: cs => (false, cs)
  | cs => (false, cs)

/-- The exponent part of a number, which ends the text; nothing stands for zero. -/
def exponent? : List Char → Option Int
  | [] => some 0
  | c :: cs =>
    if c == 'e' || c == 'E' then
      let (negative, ds) := sign cs
      if ds.isEmpty || !ds.all isAsciiDigit then none
      else
        let n : Int := natOfDigits ds
        some (if negative then -n else n)
    else none

/-- An unsigned decimal number with optional fraction and exponent, as significand and power of
ten. -/
def decimal? (cs : List Char) : Option (Nat × Int) :=
  let whole := cs.takeWhile isAsciiDigit
  let rest := cs.dropWhile isAsciiDigit
  match rest with
  | '.' :: tail =>
    let fraction := tail.takeWhile isAsciiDigit
    if whole.isEmpty && fraction.isEmpty then none
    else (exponent? (tail.dropWhile isAsciiDigit)).map fun e =>
      (natOfDigits (whole ++ fraction), e - (fraction.length : Int))
  | _ =>
    if whole.isEmpty then none
    else (exponent? rest).map fun e => (natOfDigits whole, e)

def number? (cs : List Char) : Option Float :=
  let (negative, body) := sign cs
  if matchesWord "inf".toList body || matchesWord "infinity".toList body then
    some (infinity negative)
  else if matchesWord "nan".toList body then some nan
  else (decimal? body).map fun (m, k) => round negative m k

/-- Remove underscores, each of which has to stand between two digits. `before` tells whether a
digit precedes. -/
def joinGroups (before : Bool) : List Char → Option (List Char)
  | [] => some []
  | c :: cs =>
    if c == '_' then
      if before && cs.head?.any isAsciiDigit then joinGroups false cs else none
    else (joinGroups (isAsciiDigit c) cs).map (c :: ·)

/-- The text in ASCII: digits of all scripts as 0 to 9 and blanks beyond ASCII as spaces. Any
other character beyond ASCII has no place in a number. -/
def toAscii? : List Char → Option (List Char)
  | [] => some []
  | c :: cs =>
    let image :=
      if c.toNat < 127 then some c
      else if isBlank c then some ' '
      else (digit? c).map digitChar
    match image, toAscii? cs with
    | some d, some ds => some (d :: ds)
    | _, _ => none

/-- What stands between the blanks around a number, underscores removed. -/
def numeral? (s : String) : Option (List Char) :=
  (toAscii? s.toList).bind fun cs => joinGroups false (stripEnds isAsciiBlank cs)

def read? (s : String) : Option Float :=
  (numeral? s).bind number?

/-- The double precision number that a text writes, where a not-a-number keeps its sign. -/
def readStored? (s : String) : Option (Stored Float) :=
  (numeral? s).bind fun cs => (number? cs).map fun x => ⟨x, (sign cs).1⟩

/-- The integer that a text writes, with any number of digits. -/
def readInt? (s : String) : Option Int :=
  (numeral? s).bind fun cs =>
    let (negative, ds) := sign cs
    if ds.isEmpty || !ds.all isAsciiDigit then none
    else
      let n : Int := natOfDigits ds
      some (if negative then -n else n)

end WideDeep.Decimal
