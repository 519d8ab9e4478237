import WideDeep.Gzip.Bits

/-!
# Prefix codes

A code is given by the lengths of its words. Words of one length are consecutive numbers in the
order of their symbols, and follow those of the length before.
-/

namespace WideDeep.Gzip

/-- The symbols of each word length, from length one on. -/
abbrev Code := List (List Nat)

def symbolsOf (lengths : List Nat) (length : Nat) : List Nat :=
  (lengths.zipIdx.filter (·.1 == length)).map (·.2)

/-- The number of free words of a length, given those of the next shorter length, level by level;
none if more words are taken than there are. -/
def freeWords : Code → Nat → Option Nat
  | [], free => some free
  | level :: rest, free =>
    if 2 * free < level.length then none else freeWords rest (2 * free - level.length)

/-- The levels of a code up to its longest word. There is one level at least, so that a code
without words takes a bit before it fails. -/
def levels (lengths : List Nat) : Code :=
  let longest := lengths.foldl Nat.max 1
  (List.range longest).map fun i => symbolsOf lengths (i + 1)

/-- The code of given lengths. Words must not be too many; too few are allowed in a code without
words and, if `single` is set, in a code of one-bit words. -/
def code? (single : Bool) (lengths : List Nat) : Option Code :=
  let c := levels lengths
  if lengths.all (· == 0) then some c
  else
    match freeWords c 1 with
    | none => none
    | some 0 => some c
    | some _ => if single && c.length == 1 then some c else none

/-- Read a symbol: `word` and `first` are the bits read so far and the first word of their
length. -/
def decode : Code → Nat → Nat → Bits → Except Fault (Nat × Bits)
  | [], _, _, _ => .error .invalid
  | _ :: _, _, _, [] => .error .truncated
  | level :: rest, word, first, b :: bits =>
    let word := 2 * word + b.toNat
    let first := 2 * first
    match level[word - first]? with
    | some symbol => .ok (symbol, bits)
    | none => decode rest word (first + level.length) bits

def symbol (c : Code) (bits : Bits) : Except Fault (Nat × Bits) :=
  decode c 0 0 bits

end WideDeep.Gzip
