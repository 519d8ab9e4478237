import WideDeep.Dataset

/-!
# Evaluation

How well scores agree with targets: means, and for two classes the area under the curve and the
logarithmic loss.
-/

namespace WideDeep

/-- Measures that need two classes. -/
structure TwoClassMeasures where
  area : Float
  logLoss : Float

structure Evaluation where
  size : Nat
  meanScore : Float
  meanTarget : Float
  measures : Option TwoClassMeasures

namespace Evaluation

def mean (xs : List Float32) : Float :=
  if xs.isEmpty then 0
  else Binary.widen (Blockwise.sum xs / Binary.narrow (Binary.doubleOfInt xs.length))

/-- The targets without repetitions; all not-a-numbers count as one. -/
def classes (targets : List Float) : List Float :=
  targets.foldl
    (fun seen t =>
      if seen.any fun s => s == t || (Binary.isNaN s && Binary.isNaN t) then seen
      else seen ++ [t])
    []

/-- How often a positive score is above a negative one, where equal scores count half. -/
def areaUnderCurve (positive negative : List Float) : Float :=
  let wins := positive.map fun p =>
    total (negative.map fun n => if n < p then 1 else if n == p then 0.5 else 0)
  total wins /
    (Binary.doubleOfInt positive.length * Binary.doubleOfInt negative.length)

def between (low high x : Float32) : Float32 :=
  if x < low then low else if high < x then high else x

/-- The last place of single precision below one, doubled. -/
def margin : Float32 :=
  Binary.nearestSingle false 1 8388608

/-- A probability kept away from zero and one by a margin. -/
def inside (p : Float32) : Float32 :=
  between margin (1 - margin) p

/-- The probability that a score gives to the class that is there. The score is first kept a little
away from zero and one. -/
def likelihood (score : Float32) (positive : Bool) : Float32 :=
  let p := between (Binary.narrow 1e-7) (Binary.narrow 0.9999999) score
  inside (if positive then p else 1 - p)

/-- The mean negative logarithm of the probability given to the class that is there. -/
def logLoss (scored : List (Float32 × Bool)) : Float :=
  total (scored.map fun p => -Float.log (Binary.widen (likelihood p.1 p.2))) /
    Binary.doubleOfInt scored.length

/-- Whether a target is an integer of a machine word. -/
def isClass (t : Float) : Bool :=
  (Binary.integer? t).any fun n => -0x8000000000000000 ≤ n && n ≤ 0x7fffffffffffffff

/-- The measures of two classes, of which the greater one is positive. Targets have to be integers
and scores numbers. -/
def measuresOf (scores : List Float32) (targets : List Float) (one two : Float) :
    Except Error TwoClassMeasures :=
  if !targets.all isClass || scores.any (fun p => Binary.isNaN (Binary.widen p)) then
    .error .invalidValue
  else
    let positive := if Binary.less one two then two else one
    let scored := scores.zip (targets.map (· == positive))
    let select (b : Bool) : List Float := (scored.filter (·.2 == b)).map fun p => Binary.widen p.1
    .ok ⟨areaUnderCurve (select true) (select false), logLoss scored⟩

/-- Evaluate scores against targets. The measures of two classes need as many scores as targets. -/
def ofScores (scores targets : List Float32) : Except Error Evaluation := do
  let wideTargets := targets.map Binary.widen
  let measures ←
    match classes wideTargets with
    | [one, two] =>
      if scores.length != targets.length then throw .invalidValue
      some <$> measuresOf scores wideTargets one two
    | _ => pure none
  pure ⟨targets.length, mean scores, mean targets, measures⟩

def run (m : Model Float32) (d : Dataset Float32) : Except Error Evaluation := do
  ofScores (← m.scores d.batch) (d.samples.map (·.target))

end Evaluation

end WideDeep
