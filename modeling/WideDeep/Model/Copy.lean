import WideDeep.Model.Basic
import WideDeep.Number

/-!
# Copies of weights

The parameters of a model are overwritten in their order by those of another model, or by arrays of
numbers under names. What has been overwritten stays so, whatever becomes of the next one, so a
source is checked as a whole before.
-/

namespace WideDeep

namespace Tensor

variable {α : Type}

/-- Numbers row by row, repeated to fill longer sides: a side of one place stretches to any
length. -/
def spread : List Nat → List Nat → List α → Option (List α)
  | [], [], data => some data
  | wanted :: sides, found :: rest, data =>
    if found = wanted then
      ((pieces (volume rest) found data).mapM (spread sides rest)).map List.flatten
    else if found = 1 then
      (spread sides rest data).map fun row => (List.replicate wanted row).flatten
    else none
  | _, _, _ => none

/-- A tensor laid over a shape. One with fewer sides gets the missing ones in front, and one with
more sides fits nowhere. -/
def laidOver (shape : List Nat) (t : Tensor α) : Except Error (Tensor α) :=
  if t.shape = shape then .ok t
  else
    let lacking := List.replicate (shape.length - t.shape.length) 1
    match (spread shape (lacking ++ t.shape) t.data).bind (ofList? shape) with
    | some t => .ok t
    | none => .error .tensorShape

theorem shape_laidOver {shape : List Nat} {t new : Tensor α} (h : t.laidOver shape = .ok new) :
    new.shape = shape := by
  unfold laidOver at h
  split at h
  · rename_i hsame
    cases h
    exact hsame
  · dsimp only at h
    split at h
    · rename_i filled hfilled
      cases h
      obtain ⟨data, -, hlist⟩ := Option.bind_eq_some_iff.mp hfilled
      unfold ofList? at hlist
      split at hlist <;> cases hlist
      rfl
    · cases h

end Tensor

/-- Where weights are copied from: another model, or arrays of numbers under names. -/
inductive WeightSource where
  | model (other : Model Float32)
  | arrays (given : Parameters Number)

def WeightSource.weights : WeightSource → Parameters Float32
  | model other => other.parameters
  | arrays given => given.mapValues Number.toSingle

/-- What a copy leaves: the model behind it, and the error that ended it, if one did. -/
structure Copied where
  model : Model Float32
  result : Except Error Unit

namespace Model

/-- Overwrite parameters in their order by those of their names, up to one that fails. -/
def overwriteAll (given : Parameters Float32) :
    Parameters Float32 → Parameters Float32 × Except Error Unit
  | [] => ([], .ok ())
  | (name, own) :: rest =>
    match given.get? name with
    | none => ((name, own) :: rest, .error .missingKey)
    | some t =>
      match t.laidOver own.shape with
      | .error e => ((name, own) :: rest, .error e)
      | .ok new =>
        let (ps, result) := overwriteAll given rest
        ((name, new) :: ps, result)

theorem shapes_overwriteAll (given ps : Parameters Float32) :
    (overwriteAll given ps).1.shapes = ps.shapes := by
  induction ps with
  | nil => rfl
  | cons p rest ih =>
    obtain ⟨name, own⟩ := p
    unfold overwriteAll
    cases given.get? name with
    | none => rfl
    | some t =>
      cases hlaid : t.laidOver own.shape with
      | error e => simp only [hlaid]
      | ok new =>
        simp only [hlaid, Parameters.shapes, List.map_cons, Tensor.shape_laidOver hlaid]
        exact congrArg _ ih

def checkSource (m : Model Float32) (source : WeightSource) : Except Error Unit := do
  match source with
  | .model other => checkLayout m.layout other.layout
  | .arrays _ => pure ()
  Parameters.check m.layout.shapes source.weights

/-- Check a source, and only then overwrite the parameters by its weights. -/
def copy (m : Model Float32) (source : WeightSource) : Copied :=
  match m.checkSource source with
  | .error e => ⟨m, .error e⟩
  | .ok _ =>
    let done := overwriteAll source.weights m.parameters
    ⟨⟨m.layout, done.1, (shapes_overwriteAll _ _).trans m.parameters_fit⟩, done.2⟩

end Model

end WideDeep
