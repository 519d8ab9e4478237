/-!
# Blank characters

Two classes of blanks occur: the wide one, which is stripped from the ends of tags, labels and
numbers, and the narrow one of the number grammars.
-/

namespace WideDeep.Text

def isAsciiBlank (c : Char) : Bool :=
  (9 ≤ c.toNat && c.toNat ≤ 13) || c.toNat == 32

/-- The ASCII blanks, the four information separators, and the blanks beyond ASCII. -/
def isBlank (c : Char) : Bool :=
  isAsciiBlank c || (0x1c ≤ c.toNat && c.toNat ≤ 0x1f) || c.toNat == 0x85 || c.toNat == 0xa0 ||
    c.toNat == 0x1680 || (0x2000 ≤ c.toNat && c.toNat ≤ 0x200a) || c.toNat == 0x2028 ||
    c.toNat == 0x2029 || c.toNat == 0x202f || c.toNat == 0x205f || c.toNat == 0x3000

/-- Drop the characters of a class from both ends. -/
def stripEnds (p : Char → Bool) (cs : List Char) : List Char :=
  ((cs.dropWhile p).reverse.dropWhile p).reverse

def strip (s : String) : String :=
  String.ofList (stripEnds isBlank s.toList)

end WideDeep.Text
