import WideDeep.Raw

/-!
# Categories

A label of a category may join several synonyms by the mark `@^`. The index sends each synonym to
the position of the last label that has it.
-/

namespace WideDeep

/-- The pieces of a text between the marks `@^`. -/
def pieceChars : List Char → List (List Char)
  | [] => [[]]
  | [c] => [[c]]
  | a :: b :: rest =>
    if a == '@' && b == '^' then [] :: pieceChars rest
    else
      match pieceChars (b :: rest) with
      | piece :: pieces => (a :: piece) :: pieces
      | [] => [[a]]

def synonyms (label : String) : List String :=
  (pieceChars label.toList).map String.ofList

/-- Synonyms with the positions of their labels, each synonym once. -/
abbrev CategoryIndex := List (String × Nat)

namespace CategoryIndex

def put (index : CategoryIndex) (synonym : String) (position : Nat) : CategoryIndex :=
  match index with
  | [] => [(synonym, position)]
  | (s, p) :: rest =>
    if s == synonym then (s, position) :: rest else (s, p) :: put rest synonym position

/-- Add the synonyms of labels whose positions begin at `position`. -/
def extend (index : CategoryIndex) (position : Nat) : List String → CategoryIndex
  | [] => index
  | label :: rest =>
    extend ((synonyms label).foldl (fun i s => put i s position) index) (position + 1) rest

def ofLabels (labels : List String) : CategoryIndex :=
  extend [] 0 labels

def get? (index : CategoryIndex) (synonym : String) : Option Nat :=
  index.lookup synonym

/-- The number that stands for missing and unseen values: one past the synonyms. -/
def missing (index : CategoryIndex) : Nat :=
  index.length

def find? (index : CategoryIndex) (v : Raw) : Option Nat :=
  v.key?.bind index.get?

/-- The number that a raw value is given as model input. -/
def number (index : CategoryIndex) (v : Raw) : Nat :=
  (index.find? v).getD index.missing

end CategoryIndex

end WideDeep
