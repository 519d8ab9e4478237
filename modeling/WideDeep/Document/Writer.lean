import WideDeep.Document

/-!
# Writing JSON

A document is written on one line, or with each item and entry on a line of its own and each level
of nesting two spaces further in. Characters beyond ASCII are written by their code, those beyond
the basic plane as two surrogates. The numbers that JSON lacks are written as the words that the
reader takes.
-/

namespace WideDeep.Document

open Text

def codeUnits (n : Nat) : List Char :=
  let backslash := Char.ofNat 92
  let unit (u : Nat) : List Char := backslash :: 'u' :: hex 4 u
  if n < 0x10000 then unit n
  else unit (0xd800 + (n - 0x10000) / 1024) ++ unit (0xdc00 + (n - 0x10000) % 1024)

def writtenChar (c : Char) : List Char :=
  let backslash := Char.ofNat 92
  if c.toNat == 34 || c == backslash then [backslash, c]
  else if c == '\n' then [backslash, 'n']
  else if c == '\t' then [backslash, 't']
  else if c == '\r' then [backslash, 'r']
  else if c.toNat == 8 then [backslash, 'b']
  else if c.toNat == 12 then [backslash, 'f']
  else if c.toNat < 32 || 126 < c.toNat then codeUnits c.toNat
  else [c]

def writtenText (s : String) : String :=
  let quote := Char.ofNat 34
  String.ofList (quote :: s.toList.flatMap writtenChar ++ [quote])

def writtenReal (x : Float) : String :=
  match Binary.shape x with
  | .nan => "NaN"
  | .infinite negative => if negative then "-Infinity" else "Infinity"
  | .finite _ _ _ => Decimal.render x

/-- What stands before an item: the start of a line at a depth of nesting, or nothing if all stands
on one line. -/
def lineStart : Option Nat → String
  | none => ""
  | some depth => String.ofList ('\n' :: List.replicate (2 * depth) ' ')

/-- Items between an opening and a closing bracket, which stands at a depth of nesting. -/
def block (opening closing : String) (depth : Option Nat) (items : List String) : String :=
  if items.isEmpty then opening ++ closing
  else
    let start := lineStart (depth.map (· + 1))
    opening ++ start ++ String.intercalate ("," ++ start) items ++ lineStart depth ++ closing

mutual

def written (depth : Option Nat) : Document → String
  | null => "null"
  | bool b => if b then "true" else "false"
  | int n => toString n
  | real x => writtenReal x
  | text s => writtenText s
  | list items => block "[" "]" depth (writtenItems (depth.map (· + 1)) items)
  | table entries => block "\x7b" "\x7d" depth (writtenEntries (depth.map (· + 1)) entries)

def writtenItems (depth : Option Nat) : List Document → List String
  | [] => []
  | d :: rest => written depth d :: writtenItems depth rest

def writtenEntries (depth : Option Nat) : List (String × Document) → List String
  | [] => []
  | (k, d) :: rest => (writtenText k ++ ": " ++ written depth d) :: writtenEntries depth rest

end

/-- The JSON text of a document, with one item or entry on a line. -/
def write (d : Document) : String :=
  written (some 0) d

def writeLine (d : Document) : String :=
  written none d

end WideDeep.Document
