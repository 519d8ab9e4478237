import Mathlib.Tactic
import WideDeep.Proofs.ParameterSets
import WideDeep.Proofs.Results

/-!
# Initial draws

Every initializer takes one draw for each number of the parameters, in their order, whether it takes
the draws of an array at once or place by place. The generator is any one whose arrays take one draw
for each place.
-/

namespace WideDeep.Proofs

section Tapes

/-- The next numbers of a law, in single precision. -/
def drawsFrom (f : Nat → Float) (t : Tape) (n : Nat) : List Float32 :=
  (List.range n).map fun k => Binary.narrow (f (t.position + k))

/-- The tape after a number of draws. -/
def movedBy (t : Tape) (n : Nat) : Tape :=
  { t with position := t.position + n }

lemma movedBy_add (t : Tape) (m n : Nat) : movedBy t (m + n) = movedBy (movedBy t m) n := by
  unfold movedBy
  rw [Nat.add_assoc]

lemma drawsFrom_add (f : Nat → Float) (t : Tape) (m n : Nat) :
    drawsFrom f t (m + n) = drawsFrom f t m ++ drawsFrom f (movedBy t m) n := by
  unfold drawsFrom movedBy
  rw [List.range_add, List.map_append, List.map_map]
  congr 1
  apply List.map_congr_left
  intro k _
  rw [Function.comp_apply, Nat.add_assoc]

lemma length_drawsFrom (f : Nat → Float) (t : Tape) (n : Nat) : (drawsFrom f t n).length = n := by
  simp [drawsFrom]

lemma drawsFrom_succ (f : Nat → Float) (t : Tape) (n : Nat) :
    drawsFrom f t (n + 1) = Binary.narrow (f t.position) :: drawsFrom f (movedBy t 1) n := by
  rw [Nat.add_comm, drawsFrom_add]
  rfl

/-- Draws that are taken at once. -/
theorem take_eq (f : Nat → Float) (n : Nat) (t : Tape) :
    ((Tape.take f n t).1.map Binary.narrow, (Tape.take f n t).2) =
      (drawsFrom f t n, movedBy t n) := by
  induction n generalizing t with
  | zero => rfl
  | succ n ih =>
    rw [drawsFrom_succ, Nat.add_comm n 1, movedBy_add, Nat.add_comm 1 n]
    change (Binary.narrow (f t.position) :: (Tape.take f n (movedBy t 1)).1.map Binary.narrow,
      (Tape.take f n (movedBy t 1)).2) = _
    obtain ⟨hdrawn, hmoved⟩ := Prod.mk.inj (ih (movedBy t 1))
    rw [hdrawn, hmoved]

end Tapes

section Laws

variable {source : Initializer} {f : Nat → Float} {t : Tape}

lemma randomize_eq (h : t.draws source.law = .ok f) (x : Float32) :
    source.randomize x t = .ok (Binary.narrow (f t.position), movedBy t 1) := by
  unfold Initializer.randomize Tape.next
  rw [h]
  rfl

/-- Draws that are taken place by place: each place is drawn once, whatever it held before. -/
theorem randomizeAll_eq (h : t.draws source.law = .ok f) (xs : List Float32) :
    source.randomizeAll xs t = .ok (drawsFrom f t xs.length, movedBy t xs.length) := by
  induction xs generalizing t with
  | nil => rfl
  | cons x rest ih =>
    have hmoved : (movedBy t 1).draws source.law = .ok f := h
    rw [Initializer.randomizeAll, randomize_eq h, ok_bind]
    dsimp only
    rw [ih hmoved, ok_bind, List.length_cons, drawsFrom_succ, Nat.add_comm rest.length 1,
      movedBy_add]
    rfl

/-- A law that is accepted fills any number of places, at once or place by place. -/
theorem fill_eq (h : t.draws source.law = .ok f) (n : Nat) :
    source.fill n t = .ok (drawsFrom f t n, movedBy t n) := by
  have hplaces : source.randomizeAll (List.replicate n Initializer.unset) t =
      .ok (drawsFrom f t n, movedBy t n) := by
    rw [randomizeAll_eq h, List.length_replicate]
  unfold Initializer.fill
  cases source with
  | range low high =>
    dsimp only
    unfold Tape.array
    rw [h, ← take_eq]
    rfl
  | gaussian stddev => exact hplaces
  | uniform low high => exact hplaces

/-- A matrix, a single number or a vector takes one draw for each place of its shape. -/
theorem drawOne_eq (h : t.draws source.law = .ok f) {shape : List Nat}
    (hshape : shape.length = 1 ∨ shape.length = 2) :
    Model.drawOne source shape t =
      .ok (drawsFrom f t (volume shape), movedBy t (volume shape)) := by
  unfold Model.drawOne
  rcases hshape with hone | htwo
  · obtain ⟨n, rfl⟩ := List.length_eq_one_iff.mp hone
    have hvolume : volume [n] = n := Nat.mul_one n
    dsimp only
    rw [hvolume]
    split_ifs with hsingle
    · rw [hsingle]
      unfold Initializer.scalar
      rw [randomize_eq h]
      rfl
    · exact fill_eq h n
  · obtain ⟨rows, columns, rfl⟩ := List.length_eq_two.mp htwo
    have hvolume : volume [rows, columns] = rows * columns := by
      rw [volume, volume, volume, Nat.mul_one]
    dsimp only
    rw [fill_eq h, hvolume]

end Laws

section Parameters

variable {source : Initializer} {f : Nat → Float} {t : Tape}
  {shapes : List (ParamName × List Nat)}

/-- Places under names and shapes, filled with the draws of a tape in their order. -/
def drawnBy (f : Nat → Float) : List (ParamName × List Nat) → Tape → Parameters Float32
  | [], _ => []
  | (name, shape) :: rest, t =>
    (name, Tensor.ofList shape (drawsFrom f t (volume shape))) ::
      drawnBy f rest (movedBy t (volume shape))

/-- The number of places under names and shapes. -/
def placesOf (shapes : List (ParamName × List Nat)) : Nat :=
  (shapes.map fun p => volume p.2).sum

lemma shapes_drawnBy (f : Nat → Float) (shapes : List (ParamName × List Nat)) (t : Tape) :
    (drawnBy f shapes t).shapes = shapes := by
  induction shapes generalizing t with
  | nil => rfl
  | cons p rest ih =>
    rw [drawnBy, ofList_eq (length_drawsFrom f t _)]
    change p :: (drawnBy f rest (movedBy t (volume p.2))).shapes = p :: rest
    rw [ih]

/-- The numbers of all parameters, one after the other, are the draws in their order. -/
theorem data_drawnBy (f : Nat → Float) (shapes : List (ParamName × List Nat)) (t : Tape) :
    (drawnBy f shapes t).flatMap (·.2.data) = drawsFrom f t (placesOf shapes) := by
  induction shapes generalizing t with
  | nil => rfl
  | cons p rest ih =>
    rw [drawnBy, ofList_eq (length_drawsFrom f t _), List.flatMap_cons, ih]
    change _ = drawsFrom f t (volume p.2 + placesOf rest)
    rw [drawsFrom_add]

/-- All parameters are drawn, one after the other. -/
theorem drawAll_eq (h : t.draws source.law = .ok f)
    (hshapes : ∀ p ∈ shapes, p.2.length = 1 ∨ p.2.length = 2) :
    Model.drawAll source shapes t = .ok (drawnBy f shapes t, movedBy t (placesOf shapes)) := by
  induction shapes generalizing t with
  | nil => rfl
  | cons p rest ih =>
    obtain ⟨hfirst, hrest⟩ := List.forall_mem_cons.mp hshapes
    have hmoved : (movedBy t (volume p.2)).draws source.law = .ok f := h
    rw [Model.drawAll, drawOne_eq h hfirst, ok_bind]
    dsimp only
    rw [ih hmoved hrest, ok_bind]
    dsimp only
    rw [← movedBy_add]
    rfl

/-- The parameters of a layout are vectors and matrices. -/
lemma length_of_mem_shapes (l : Layout) : ∀ p ∈ l.shapes, p.2.length = 1 ∨ p.2.length = 2 := by
  have hlayers : ∀ (position : Nat) (layers : List LayerSize),
      ∀ p ∈ Layout.layerShapes position layers, p.2.length = 1 ∨ p.2.length = 2 := by
    intro position layers
    induction layers generalizing position with
    | nil => simp [Layout.layerShapes]
    | cons s rest ih =>
      rw [Layout.layerShapes, List.forall_mem_cons, List.forall_mem_cons]
      exact ⟨Or.inr rfl, Or.inl rfl, ih (position + 1)⟩
  unfold Layout.shapes
  simp only [List.forall_mem_cons, List.forall_mem_append, List.forall_mem_map]
  exact ⟨Or.inl rfl, ⟨fun _ _ => Or.inr rfl, fun _ _ => Or.inr rfl⟩, hlayers 0 l.layers⟩

lemma placesOf_shapes (l : Layout) : placesOf l.shapes = l.size := by
  unfold placesOf Layout.size
  rw [List.sum_eq_foldl_nat]

/-- The weights of a model are drawn by every law that the generator accepts. -/
theorem drawWeights_eq (h : t.draws source.law = .ok f) (m : Model Float32) :
    m.drawWeights source t =
      .ok (Model.ofParameters m.layout (drawnBy f m.layout.shapes t), movedBy t m.layout.size) := by
  unfold Model.drawWeights
  rw [drawAll_eq h (length_of_mem_shapes m.layout), ok_bind, placesOf_shapes]
  rfl

end Parameters

end WideDeep.Proofs
