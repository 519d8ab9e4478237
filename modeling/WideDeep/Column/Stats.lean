import WideDeep.Category

/-!
# Column statistics

What normalization and the model know of one column. The weights of evidence of a column, if it has
any, have one entry for each bin and a last one for missing values; the type carries this.
-/

namespace WideDeep

inductive ColumnKind where
  | numerical
  | categorical
  | hybrid
  deriving DecidableEq

namespace ColumnKind

def letter : ColumnKind → String
  | numerical => "N"
  | categorical => "C"
  | hybrid => "H"

def ofLetter? (s : String) : Option ColumnKind :=
  if s == "N" then some numerical
  else if s == "C" then some categorical
  else if s == "H" then some hybrid
  else none

def numBins (kind : ColumnKind) (boundaries labels : Nat) : Nat :=
  match kind with
  | numerical => boundaries
  | categorical => labels
  | hybrid => boundaries + labels

end ColumnKind

def evidenceFits (found bins : Nat) : Bool :=
  found == 0 || found == bins + 1

/-- Statistics of one column, whose name and labels are of type `L` and whose numbers are of type
`N`. -/
structure ColumnStatsOf (L N : Type) where
  number : Int
  name : Option L
  kind : ColumnKind
  mean : N
  stddev : N
  cutoff : N
  boundaries : List N
  labels : List L
  countEvidence : List N
  weightedEvidence : List N
  evidenceMean : N
  evidenceStddev : N
  weightedMean : N
  weightedStddev : N
  countEvidence_fits :
    evidenceFits countEvidence.length (kind.numBins boundaries.length labels.length) = true
  weightedEvidence_fits :
    evidenceFits weightedEvidence.length (kind.numBins boundaries.length labels.length) = true

abbrev ColumnStats := ColumnStatsOf String Float

/-- What follows the last mark `::` of a name. -/
def afterNamespace? : List Char → Option (List Char)
  | [] => none
  | c :: rest =>
    match afterNamespace? rest with
    | some inner => some inner
    | none => if c == ':' && rest.head? == some ':' then some (rest.drop 1) else none

def simpleName (name : String) : String :=
  match afterNamespace? name.toList with
  | some inner => String.ofList inner
  | none => name

namespace ColumnStatsOf

variable {L M N K : Type}

/-- The number of bins, the one of missing values aside. -/
def numBins (c : ColumnStatsOf L N) : Nat :=
  c.kind.numBins c.boundaries.length c.labels.length

def map (f : L → M) (g : N → K) (c : ColumnStatsOf L N) : ColumnStatsOf M K :=
  { c with
    name := c.name.map f
    labels := c.labels.map f
    mean := g c.mean
    stddev := g c.stddev
    cutoff := g c.cutoff
    boundaries := c.boundaries.map g
    countEvidence := c.countEvidence.map g
    weightedEvidence := c.weightedEvidence.map g
    evidenceMean := g c.evidenceMean
    evidenceStddev := g c.evidenceStddev
    weightedMean := g c.weightedMean
    weightedStddev := g c.weightedStddev
    countEvidence_fits := by simpa using c.countEvidence_fits
    weightedEvidence_fits := by simpa using c.weightedEvidence_fits }

/-- Put a column in place of an earlier one of its number, or behind all others. -/
def put (columns : List (ColumnStatsOf L N)) (c : ColumnStatsOf L N) : List (ColumnStatsOf L N) :=
  match columns with
  | [] => [c]
  | d :: rest => if d.number == c.number then c :: rest else d :: put rest c

/-- Columns with distinct numbers: of equal numbers the last column counts. -/
def byNumber (columns : List (ColumnStatsOf L N)) : List (ColumnStatsOf L N) :=
  columns.foldl put []

end ColumnStatsOf

namespace ColumnStats

def categoryIndex (c : ColumnStats) : CategoryIndex :=
  CategoryIndex.ofLabels c.labels

end ColumnStats

end WideDeep
