import Mathlib.Tactic
import WideDeep.Scalar

/-!
# Exact sums

Over scalars whose addition is exact, a sum depends neither on the order nor on the grouping of its
parts. Rational numbers are such scalars. Their elementary functions are those of double precision.
-/

namespace WideDeep.Proofs
open Binary

/-- Scalars whose addition is exact. -/
class ExactSum (δ : Type) [Scalar δ] : Prop where
  add_assoc : ∀ x y z : δ, x + y + z = x + (y + z)
  add_comm : ∀ x y : δ, x + y = y + x
  zero_add : ∀ x : δ, 0 + x = x

section Totals

variable {δ : Type} [Scalar δ] [ExactSum δ]

lemma add_zero_exact (x : δ) : x + 0 = x := by
  rw [ExactSum.add_comm, ExactSum.zero_add]

lemma total_singleton (x : δ) : total [x] = x :=
  ExactSum.zero_add x

lemma foldl_add (x : δ) (xs : List δ) : xs.foldl (· + ·) x = x + total xs := by
  unfold total
  induction xs generalizing x with
  | nil => exact (add_zero_exact x).symm
  | cons y rest ih => rw [List.foldl_cons, List.foldl_cons, ih, ih (0 + y), ExactSum.zero_add,
      ExactSum.add_assoc]

lemma total_cons (x : δ) (xs : List δ) : total (x :: xs) = x + total xs := by
  unfold total
  rw [List.foldl_cons, foldl_add, ExactSum.zero_add]
  rfl

theorem total_append (xs ys : List δ) : total (xs ++ ys) = total xs + total ys := by
  unfold total
  rw [List.foldl_append, foldl_add]
  rfl

theorem total_perm {xs ys : List δ} (h : xs.Perm ys) : total xs = total ys := by
  induction h with
  | nil => rfl
  | cons x _ ih => rw [total_cons, total_cons, ih]
  | swap x y rest =>
    simp only [total_cons]
    rw [← ExactSum.add_assoc, ← ExactSum.add_assoc, ExactSum.add_comm y x]
  | trans _ _ ih₁ ih₂ => rw [ih₁, ih₂]

end Totals

section Rationals

/-- The rational number that a double stands for; zero if it is not finite. -/
def rationalOf (x : Float) : ℚ :=
  match shape x with
  | .finite negative m e => (if negative then -1 else 1) * m * (2 : ℚ) ^ e
  | _ => 0

/-- The double nearest to a rational number. -/
def doubleNearest (q : ℚ) : Float :=
  nearestDouble (q < 0) q.num.natAbs q.den

/-- The single precision number nearest to a rational number. -/
def singleNearest (q : ℚ) : Float32 :=
  nearestSingle (q < 0) q.num.natAbs q.den

instance : Scalar ℚ where
  exp q := rationalOf (Float.exp (doubleNearest q))
  logOnePlus q := rationalOf (WideDeep.logOnePlus (doubleNearest q))
  tanh q := rationalOf (Float.tanh (doubleNearest q))
  sqrt q := rationalOf (Float.sqrt (doubleNearest q))
  less p q := decide (p < q)
  atMost p q := decide (p ≤ q)
  ofDouble := rationalOf
  holds _ := true

instance : ExactSum ℚ where
  add_assoc := add_assoc
  add_comm := add_comm
  zero_add := zero_add

instance : Precision Float32 ℚ where
  widen x := rationalOf (widen x)
  narrow := singleNearest

end Rationals

end WideDeep.Proofs
