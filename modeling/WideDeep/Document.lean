import WideDeep.Decimal.Reading
import WideDeep.Decimal.Shortest
import WideDeep.Text.Quoted

/-!
# Documents

The values of a JSON text, with integers and other numbers kept apart.
-/

namespace WideDeep

/-- A JSON value. The entries of a table have distinct keys. -/
inductive Document where
  | null
  | bool (value : Bool)
  | int (value : Int)
  | real (value : Float)
  | text (value : String)
  | list (items : List Document)
  | table (entries : List (String × Document))
  deriving Inhabited

namespace Document

def get? (key : String) : Document → Option Document
  | table entries => entries.lookup key
  | _ => none

def text? : Document → Option String
  | text s => some s
  | _ => none

def integer? : Document → Option Int
  | int n => some n
  | _ => none

/-- Put a value under a key: a key that is there keeps its place. -/
def insert {α : Type} (key : String) (value : α) : List (String × α) → List (String × α)
  | [] => [(key, value)]
  | (k, v) :: rest => if k == key then (k, value) :: rest else (k, v) :: insert key value rest

/-- Null, false, zero and what is empty count as absent. -/
def isAbsent : Document → Bool
  | null => true
  | bool b => !b
  | int n => n == 0
  | real x => x == 0
  | text s => s == ""
  | list items => items.isEmpty
  | table entries => entries.isEmpty

mutual

/-- How messages show a document, with texts in quotes. -/
def shown : Document → String
  | null => "None"
  | bool b => if b then "True" else "False"
  | int n => toString n
  | real x => Decimal.render x
  | text s => Text.quoted s
  | list items => Text.bracketed (shownItems items)
  | table entries => "\x7b" ++ String.intercalate ", " (shownEntries entries) ++ "\x7d"

def shownItems : List Document → List String
  | [] => []
  | d :: rest => shown d :: shownItems rest

def shownEntries : List (String × Document) → List String
  | [] => []
  | (k, d) :: rest => (Text.quoted k ++ ": " ++ shown d) :: shownEntries rest

end

/-- How messages show a document that stands alone: a text without quotes. -/
def plain : Document → String
  | text s => s
  | d => shown d

end Document

end WideDeep
