import WideDeep.Binning
import WideDeep.Scalar
import WideDeep.Text.Case

/-!
# Normalization

A raw value of a dense column becomes one single precision number: a z-score of the value, its
weight of evidence, or a z-score of that. A value that cannot be used counts as the mean of its
column, or as the bin of missing values.
-/

namespace WideDeep

inductive NormKind where
  | zscale
  | zscore
  | oldZscale
  | oldZscore
  | woe
  | weightWoe
  | hybrid
  | weightHybrid
  | woeZscore
  | woeZscale
  | weightWoeZscore
  | weightWoeZscale
  deriving DecidableEq

namespace NormKind

def name : NormKind → String
  | zscale => "ZSCALE"
  | zscore => "ZSCORE"
  | oldZscale => "OLD_ZSCALE"
  | oldZscore => "OLD_ZSCORE"
  | woe => "WOE"
  | weightWoe => "WEIGHT_WOE"
  | hybrid => "HYBRID"
  | weightHybrid => "WEIGHT_HYBRID"
  | woeZscore => "WOE_ZSCORE"
  | woeZscale => "WOE_ZSCALE"
  | weightWoeZscore => "WEIGHT_WOE_ZSCORE"
  | weightWoeZscale => "WEIGHT_WOE_ZSCALE"

def all : List NormKind :=
  [zscale, zscore, oldZscale, oldZscore, woe, weightWoe, hybrid, weightHybrid, woeZscore,
   woeZscale, weightWoeZscore, weightWoeZscale]

def ofName? (s : String) : Option NormKind :=
  let key := Text.upperAscii (Text.strip s)
  all.find? fun k => k.name == key

def parse (s : Option String) : Except Error NormKind :=
  match s with
  | none => .error .normMissing
  | some name =>
    match ofName? name with
    | some k => .ok k
    | none => .error .invalidValue

def ofDocument : Document → Except Error NormKind
  | .null => parse none
  | .text s => parse (some s)
  | _ => .error .notText

/-- How a kind is computed. -/
inductive Method where
  | score
  | evidence (kind : EvidenceKind)
  | evidenceScore (kind : EvidenceKind)
  deriving DecidableEq

def method : NormKind → Method
  | zscale => .score
  | zscore => .score
  | oldZscale => .score
  | oldZscore => .score
  | hybrid => .score
  | weightHybrid => .score
  | woe => .evidence .count
  | weightWoe => .evidence .weighted
  | woeZscore => .evidenceScore .count
  | woeZscale => .evidenceScore .count
  | weightWoeZscore => .evidenceScore .weighted
  | weightWoeZscale => .evidenceScore .weighted

end NormKind

namespace Zscore

variable {α : Type}

def magnitude [Zero α] [Sub α] [LE α] [DecidableLE α] (x : α) : α :=
  if x ≤ 0 then 0 - x else x

/-- The cutoff in force: its magnitude, or a default. -/
def cutoff [Zero α] [Sub α] [LE α] [DecidableLE α] (default : α) (c : Option α) : α :=
  match c with
  | none => default
  | some x => magnitude x

/-- The distance of a value from the mean in units of the deviation, clipped into the cutoff. A
deviation of at most `tiny` gives zero. -/
def compute [Zero α] [Sub α] [Neg α] [Div α] [LT α] [DecidableLT α] [LE α] [DecidableLE α]
    (tiny value mean stddev c : α) : α :=
  let z := if tiny < magnitude stddev then (value - mean) / stddev else 0
  let raised := if z < -c then -c else z
  if c < raised then c else raised

/-- Below this the deviation of a column counts as none. -/
def tiny : Float := 1e-6

def defaultCutoff : Float := 4

end Zscore

namespace ColumnStats

/-- The z-score of a number with given mean and deviation, under the cutoff of the column. -/
def score (c : ColumnStats) (value mean stddev : Float) : Float :=
  Zscore.compute Zscore.tiny value mean stddev
    (Zscore.cutoff Zscore.defaultCutoff (some c.cutoff))

def evidenceMoments (c : ColumnStats) : EvidenceKind → Float × Float
  | .count => (c.evidenceMean, c.evidenceStddev)
  | .weighted => (c.weightedMean, c.weightedStddev)

/-- Normalize a raw value. Values pass through single precision before they are scored. -/
def normalize (c : ColumnStats) (kind : NormKind) (v : Raw) : Except Error Float32 :=
  match kind.method with
  | .score =>
    (v.number?).map fun x =>
      let value :=
        match x with
        | some y => Binary.widen (Binary.narrow y)
        | none => c.mean
      Binary.narrow (c.score value c.mean c.stddev)
  | .evidence e => (c.evidenceOf e v).map Binary.narrow
  | .evidenceScore e =>
    (c.evidenceOf e v).map fun w =>
      let (mean, stddev) := c.evidenceMoments e
      Binary.narrow (c.score (Binary.widen (Binary.narrow w)) mean stddev)

end ColumnStats

end WideDeep
