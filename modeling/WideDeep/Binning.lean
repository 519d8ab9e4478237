import WideDeep.Column.Record

/-!
# Bins and weights of evidence

A bin is found by number, by category, or by number first and category second, as the kind of the
column asks. The weight of evidence of a bin is the entry at its place, and that of everything
without a bin is the last entry.
-/

namespace WideDeep

namespace Binning

/-- Binary search for the place behind all boundaries that do not exceed `x`, between `lo` and
`hi`. -/
def search (boundaries : List Float) (x : Float) (lo hi : Nat) : Nat :=
  if h : lo < hi then
    let mid := (lo + hi) / 2
    if Binary.less x (boundaries.getD mid Binary.nan) then search boundaries x lo mid
    else search boundaries x (mid + 1) hi
  else lo
termination_by hi - lo
decreasing_by
  · show (lo + hi) / 2 - lo < hi - lo
    omega
  · show hi - ((lo + hi) / 2 + 1) < hi - lo
    omega

/-- The bin of a number: bin `i` reaches from boundary `i` to the next one, and the last bin holds
the last boundary alone. Outside the boundaries there is none. -/
def ofNumber? (boundaries : List Float) (x : Float) : Option Nat :=
  match boundaries.head?, boundaries.getLast? with
  | some first, some last =>
    if Binary.less x first || Binary.less last x then none
    else
      match search boundaries x 0 boundaries.length with
      | 0 => none
      | n + 1 => some n
  | _, _ => none

def numerical? (boundaries : List Float) (v : Raw) : Except Error (Option Nat) :=
  (v.number?).map fun x => x.bind (ofNumber? boundaries)

end Binning

namespace ColumnStats

def binWith? (c : ColumnStats) (index : CategoryIndex) (v : Raw) : Except Error (Option Nat) :=
  match c.kind with
  | .numerical => Binning.numerical? c.boundaries v
  | .categorical => .ok (index.find? v)
  | .hybrid =>
    (Binning.numerical? c.boundaries v).map fun bin =>
      match bin with
      | some i => some i
      | none => (index.find? v).map (c.boundaries.length + ·)

def bin? (c : ColumnStats) (v : Raw) : Except Error (Option Nat) :=
  c.binWith? c.categoryIndex v

def evidence (c : ColumnStats) : EvidenceKind → List Float
  | .count => c.countEvidence
  | .weighted => c.weightedEvidence

end ColumnStats

namespace Binning

/-- The entry of a bin; the last entry if there is no bin or if the bin is not before the last
entry. -/
def entry (weights : List Float) (bin : Option Nat) : Float :=
  match bin with
  | some i => if i + 1 < weights.length then weights.getD i 0 else weights.getLastD 0
  | none => weights.getLastD 0

end Binning

namespace ColumnStats

/-- The weight of evidence of a raw value; zero if the column has none. -/
def evidenceOf (c : ColumnStats) (kind : EvidenceKind) (v : Raw) : Except Error Float :=
  if (c.evidence kind).isEmpty then .ok 0
  else (c.bin? v).map (Binning.entry (c.evidence kind))

end ColumnStats

namespace ColumnRecord

/-- The weight of evidence of a raw value. The labels have to be texts only if there is any
evidence. -/
def evidenceOf (c : ColumnRecord) (kind : EvidenceKind) (v : Raw) : Except Error Float := do
  let given :=
    match kind with
    | .count => c.countEvidence
    | .weighted => c.weightedEvidence
  if given.isEmpty then pure 0 else (← c.stats).evidenceOf kind v

end ColumnRecord

end WideDeep
