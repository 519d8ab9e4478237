import WideDeep.Model.Scoring

/-!
# Datasets

Normalized records with targets and weights. Each record carries all that belongs to it, so records
stay whole when a dataset is filtered or split.
-/

namespace WideDeep

structure Sample (α : Type) where
  inputs : Inputs α
  target : α
  weight : α

/-- Normalized records and the widths of their three parts. -/
structure Dataset (α : Type) where
  denseWidth : Nat
  embedWidth : Nat
  wideWidth : Nat
  samples : List (Sample α)

namespace Dataset

variable {α : Type}

def size (d : Dataset α) : Nat :=
  d.samples.length

def withSamples (d : Dataset α) (samples : List (Sample α)) : Dataset α :=
  { d with samples }

def batch (d : Dataset α) : Batch α :=
  ⟨⟨d.denseWidth, d.samples.map (·.inputs.dense)⟩, ⟨d.embedWidth, d.samples.map (·.inputs.embed)⟩,
    ⟨d.wideWidth, d.samples.map (·.inputs.wide)⟩⟩

def slice (d : Dataset α) (start stop : Nat) : Dataset α :=
  d.withSamples ((d.samples.take stop).drop start)

/-- Consecutive parts, where part `i` reaches from `cut i` to `cut (i + 1)`. -/
def splitWith (d : Dataset α) (cut : Nat → Nat) (parts : Nat) : List (Dataset α) :=
  (List.range parts).map fun i => d.slice (cut i) (cut (i + 1))

/-- The place of cut `i` when `size` records are split evenly: `i` steps of `size / parts`, computed
in double precision, the fraction dropped. The last cut is at the end. -/
def evenCut (size parts i : Nat) : Nat :=
  if i = parts then size
  else
    let step := Binary.doubleOfInt size / Binary.doubleOfInt parts
    ((Binary.truncate? (Binary.doubleOfInt i * step)).getD 0).toNat

/-- The number of cuts beyond which they cannot be listed. -/
def mostCuts : Int := 0x1000000000000000

/-- Split into a number of consecutive parts, as even as can be. No parts, or one less, give no
parts at all. -/
def split (d : Dataset α) (parts : Int) : Except Error (List (Dataset α)) :=
  if parts < -1 || mostCuts ≤ parts then .error .invalidValue
  else .ok (d.splitWith (evenCut d.size parts.toNat) parts.toNat)

/-- Consecutive batches of a size; the last one may be smaller. -/
def chunks {β : Type} (size : Nat) : Nat → List β → List (List β)
  | 0, _ => []
  | _, [] => []
  | fuel + 1, xs => xs.take size :: chunks size fuel (xs.drop size)

def batches (d : Dataset α) (size : Nat) : List (List (Sample α)) :=
  chunks size d.size d.samples

end Dataset

end WideDeep
