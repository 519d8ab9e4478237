/-!
# Tensors

A tensor is a shape and as many numbers as the shape has places, row by row.
-/

namespace WideDeep

def volume : List Nat → Nat
  | [] => 1
  | n :: rest => n * volume rest

structure Tensor (α : Type) where
  shape : List Nat
  data : List α
  size_eq : data.length = volume shape

namespace Tensor

variable {α β γ : Type}

def replicate (shape : List Nat) (x : α) : Tensor α :=
  ⟨shape, List.replicate (volume shape) x, by simp⟩

def zeros [Zero α] (shape : List Nat) : Tensor α :=
  replicate shape 0

instance [Zero α] : Inhabited (Tensor α) :=
  ⟨zeros []⟩

/-- Numbers under a shape, if they are as many as it has places. -/
def ofList? (shape : List Nat) (data : List α) : Option (Tensor α) :=
  if h : data.length = volume shape then some ⟨shape, data, h⟩ else none

/-- Numbers under a shape that they are known to fill; zeros if they do not. -/
def ofList [Zero α] (shape : List Nat) (data : List α) : Tensor α :=
  (ofList? shape data).getD (zeros shape)

def map (f : α → β) (t : Tensor α) : Tensor β :=
  ⟨t.shape, t.data.map f, by rw [List.length_map, t.size_eq]⟩

def zipWith (f : α → β → γ) (s : Tensor α) (t : Tensor β) (h : s.shape = t.shape) : Tensor γ :=
  ⟨s.shape, List.zipWith f s.data t.data, by
    rw [List.length_zipWith, s.size_eq, t.size_eq, h, Nat.min_self]⟩

/-- Change each number by the one at its place in another tensor; nothing is changed if the shapes
differ. -/
def combine (f : α → β → α) (s : Tensor α) (t : Tensor β) : Tensor α :=
  if h : s.shape = t.shape then zipWith f s t h else s

/-- The tensor itself if it has the given shape, and zeros of that shape if not. -/
def withShape [Zero α] (shape : List Nat) (t : Tensor α) : Tensor α :=
  if t.shape = shape then t else zeros shape

theorem shape_zeros [Zero α] (shape : List Nat) : (zeros shape : Tensor α).shape = shape := rfl

theorem shape_map (f : α → β) (t : Tensor α) : (t.map f).shape = t.shape := rfl

theorem shape_combine (f : α → β → α) (s : Tensor α) (t : Tensor β) :
    (s.combine f t).shape = s.shape := by
  unfold combine
  split <;> rfl

theorem shape_withShape [Zero α] (shape : List Nat) (t : Tensor α) :
    (t.withShape shape).shape = shape := by
  unfold withShape
  split
  · assumption
  · rfl

def pieces (width : Nat) : Nat → List α → List (List α)
  | 0, _ => []
  | n + 1, xs => xs.take width :: pieces width n (xs.drop width)

def rows (t : Tensor α) : List (List α) :=
  match t.shape with
  | [n, width] => pieces width n t.data
  | _ => []

def head [Zero α] (t : Tensor α) : α :=
  t.data.headD 0

end Tensor

end WideDeep
