import WideDeep.Text.Printable

/-!
# Quoted text

How messages show a text: between single quotes, or between double quotes if it holds a single
quote and no double one. Characters that do not print are shown by their code.
-/

namespace WideDeep.Text

def hex (width n : Nat) : List Char :=
  let ds := Nat.toDigits 16 n
  List.replicate (width - ds.length) '0' ++ ds

/-- One character between quotes of the given kind. -/
def quotedChar (quote c : Char) : List Char :=
  let backslash := Char.ofNat 92
  if c == quote || c == backslash then [backslash, c]
  else if c == '\t' then [backslash, 't']
  else if c == '\n' then [backslash, 'n']
  else if c == '\r' then [backslash, 'r']
  else if isPrintable c then [c]
  else if c.toNat < 0x100 then backslash :: 'x' :: hex 2 c.toNat
  else if c.toNat < 0x10000 then backslash :: 'u' :: hex 4 c.toNat
  else backslash :: 'U' :: hex 8 c.toNat

def quoted (s : String) : String :=
  let single := Char.ofNat 39
  let double := Char.ofNat 34
  let cs := s.toList
  let quote := if cs.contains single && !cs.contains double then double else single
  String.ofList (quote :: cs.flatMap (quotedChar quote) ++ [quote])

/-- Items between brackets, separated by commas. -/
def bracketed (items : List String) : String :=
  "[" ++ String.intercalate ", " items ++ "]"

/-- Items between parentheses; a single one is followed by a comma. -/
def parenthesized : List String → String
  | [a] => "(" ++ a ++ ",)"
  | items => "(" ++ String.intercalate ", " items ++ ")"

end WideDeep.Text
