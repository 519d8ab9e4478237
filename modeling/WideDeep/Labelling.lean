import WideDeep.Assembler
import WideDeep.Document
import WideDeep.Notice
import WideDeep.Text.Blank

/-!
# Labelled records

A tag column tells positive from negative records; all others are dropped. A weight column gives
weights, where what is not a number counts as one.
-/

namespace WideDeep

namespace WeightText

/-- What stands before the first null character. -/
def visible (s : String) : List Char :=
  s.toList.takeWhile (·.toNat != 0)

/-- A number without the blanks between the letter of its exponent and the exponent. -/
def closeExponent : List Char → List Char
  | [] => []
  | c :: cs =>
    if c == 'e' || c == 'E' then c :: cs.dropWhile Text.isAsciiBlank else c :: closeExponent cs

def infinity? (cs : List Char) : Option Float :=
  let (negative, body) := Decimal.sign cs
  if Decimal.matchesWord "inf".toList body || Decimal.matchesWord "infinity".toList body then
    some (Binary.infinity negative)
  else none

/-- Whether a text writes a number without point and exponent. -/
def isWhole (cs : List Char) : Bool :=
  let ds := (Decimal.sign cs).2
  !ds.isEmpty && ds.all Text.isAsciiDigit

/-- The integer that a text writes, if it writes one without point and exponent. -/
def integer? (s : String) : Option Int :=
  if isWhole (Text.stripEnds Text.isAsciiBlank (visible s)) then Decimal.readInt? s else none

/-- The number that a text writes in ASCII between blanks, rounded correctly. Blanks may follow the
letter of an exponent behind a plus sign, and one without point and exponent has to be an
integer. -/
def number? (s : String) : Option Float :=
  let cs := Text.stripEnds Text.isAsciiBlank (visible s)
  let (negative, body) := Decimal.sign cs
  let body := if cs.head? == some '+' then closeExponent body else body
  if isWhole cs && (Decimal.readInt? s).isNone then none
  else
    match Decimal.decimal? body with
    | some (m, k) => some (Decimal.round negative m k)
    | none => infinity? (visible s)

end WeightText

def Raw.weightInteger? : Raw → Option Int
  | .int n => some n
  | .bool b => some (if b then 1 else 0)
  | .text s => WeightText.integer? s
  | _ => none

/-- The number that a weight is; one if it is none. Only an integer out of range is an error. -/
def Raw.weight : Raw → Except Error Float
  | .int n => Raw.doubleOfInt? n
  | .bool b => .ok (if b then 1 else 0)
  | .real x => .ok (if Binary.isNaN x then 1 else x)
  | .text s => .ok ((WeightText.number? s).getD 1)
  | _ => .ok 1

def singleOfInt (n : Int) : Float32 :=
  Binary.nearestSingle (n < 0) n.natAbs 1

/-- The weights of a column. If all are integers of one machine word, they are rounded in one
step; else they pass through double precision. -/
def weightsOf (values : List Raw) : Except Error (List Float32) :=
  let passed : Except Error (List Float32) := values.mapM fun v => v.weight.map Binary.narrow
  match values.mapM Raw.weightInteger? with
  | some ns =>
    let fits := ns.all fun n => -0x8000000000000000 ≤ n && n ≤ 0xffffffffffffffff
    let mixed := ns.any (· < 0) && ns.any (0x7fffffffffffffff < ·)
    if fits && !mixed then .ok (ns.map singleOfInt) else passed
  | none => passed

/-- How tags and weights are found. The names are taken as they are given. -/
structure Labelling where
  target : Document
  positive : List String
  negative : List String
  weight : Document

namespace Labelling

/-- A labelling with tags as they are written out. -/
def make (target : Document) (positive negative : List Raw) (weight : Document) : Labelling :=
  ⟨target, positive.map Raw.shown, negative.map Raw.shown, weight⟩

/-- The column of a frame that a name means. What is no text names none, and for lists and tables
the question makes no sense. A name that columns share is of no use. -/
def columnOf? (f : Frame) (name : Document) : Except Error (Option (List Raw)) :=
  match name with
  | .text s => if f.isShared s then .error .wrongType else .ok (f.columns.lookup s)
  | .list _ => .error .wrongType
  | .table _ => .error .wrongType
  | _ => .ok none

def tag? (v : Raw) : Option String :=
  v.key?.map Text.strip

def isPositive (l : Labelling) (v : Raw) : Bool :=
  (tag? v).any l.positive.contains

def isValid (l : Labelling) (v : Raw) : Bool :=
  l.isPositive v || (tag? v).any l.negative.contains

/-- Whether so many records without a valid tag are worth a notice: four fifths or more. -/
def tooManyInvalid (total invalid : Nat) : Bool :=
  0 < total && 4 * total ≤ 5 * invalid

def weights (l : Labelling) (f : Frame) : Except Error (List Float32) := do
  let ones := List.replicate f.size 1
  if l.weight.isAbsent then pure ones
  else
    match ← columnOf? f l.weight with
    | some values => weightsOf values
    | none => pure ones

def targets (l : Labelling) (tags : List Raw) : List Float32 :=
  (tags.filter l.isValid).map fun v => if l.isPositive v then 1 else 0

/-- Label a frame and normalize the records that are kept, with the notices made on the way. -/
def run (l : Labelling) (a : Assembler) (f : Frame) :
    List Notice × Except Error (Dataset Float32) :=
  match columnOf? f l.target with
  | .error e => ([], .error e)
  | .ok none => ([], .error (.targetMissing l.target.shown))
  | .ok (some tags) =>
    let keep := tags.map l.isValid
    let invalid := (keep.filter (!·)).length
    let notices := if tooManyInvalid f.size invalid then [Notice.manyInvalidTags] else []
    let kept := f.filter keep
    (notices, do
      let rows ← a.frameInputs kept
      let weights ← l.weights kept
      pure
        { denseWidth := a.dense.length, embedWidth := a.embed.length, wideWidth := a.wide.length
          samples := (rows.zip ((l.targets tags).zip weights)).map fun p => ⟨p.1, p.2.1, p.2.2⟩ })

end Labelling

end WideDeep
