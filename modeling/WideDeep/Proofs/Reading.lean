import Mathlib.Tactic
import WideDeep.Bytes.Reader

/-!
# What readers do

A reader that takes exactly some bytes and gives a value does so whatever follows them, and reports
malformed data if they are cut short. Readers in sequence take the bytes of their parts in sequence.
-/

namespace WideDeep.Proofs

variable {β γ : Type}

section Runs

@[simp] lemma runOn_pure (v : β) (bytes : Bytes) :
    Reader.runOn (pure v : Reader β) bytes = (.ok v, bytes) := rfl

@[simp] lemma runOn_throw (e : Error) (bytes : Bytes) :
    Reader.runOn (throw e : Reader β) bytes = (.error e, bytes) := rfl

@[simp] lemma runOn_fault (f : FormatFault) (bytes : Bytes) :
    Reader.runOn (Reader.fault f : Reader β) bytes = (.error (.format f), bytes) := rfl

@[simp] lemma runOn_get (bytes : Bytes) :
    Reader.runOn (get : Reader Bytes) bytes = (.ok bytes, bytes) := rfl

@[simp] lemma runOn_set (left bytes : Bytes) :
    Reader.runOn (set left : Reader PUnit) bytes = (.ok ⟨⟩, left) := rfl

/-- The second of two readers goes on where the first one stopped. -/
theorem runOn_bind (r : Reader β) (f : β → Reader γ) (bytes : Bytes) :
    Reader.runOn (r >>= f) bytes =
      match Reader.runOn r bytes with
      | (.ok v, rest) => Reader.runOn (f v) rest
      | (.error e, rest) => (.error e, rest) := by
  unfold Reader.runOn ExceptT.run StateT.run
  simp only [bind, ExceptT.bind, ExceptT.mk, StateT.bind]
  cases r bytes with
  | mk result rest => cases result <;> rfl

lemma runOn_ite (c : Prop) [Decidable c] (r s : Reader β) (bytes : Bytes) :
    Reader.runOn (if c then r else s) bytes =
      if c then Reader.runOn r bytes else Reader.runOn s bytes := by
  split <;> rfl

/-- Taking bytes: all outcomes. -/
theorem runOn_take (count : Int) (bytes : Bytes) :
    Reader.runOn (Reader.take count) bytes =
      if 0x8000000000000000 ≤ count ∨ count < -0x8000000000000000 then (.error .overflow, bytes)
      else
        let n := if count < 0 then bytes.length else count.toNat
        if ((bytes.take n).length : Int) = count then (.ok (bytes.take n), bytes.drop n)
        else (.error (.format (.unexpectedEnd count (bytes.take n).length)), bytes.drop n) := by
  unfold Reader.take
  simp only [runOn_bind, runOn_ite, runOn_throw, runOn_pure, runOn_get, runOn_set, runOn_fault,
    Bool.or_eq_true, decide_eq_true_eq, bne_iff_ne, ne_eq, ite_not]

/-- What comes of a count of bytes: it is no machine word, or there are as many bytes, or there are
too few. -/
theorem take_cases (count : Int) (bytes : Bytes) :
    ((0x8000000000000000 ≤ count ∨ count < -0x8000000000000000) ∧
      Reader.runOn (Reader.take count) bytes = (.error .overflow, bytes)) ∨
    (count < 0x8000000000000000 ∧ ∃ taken rest, (taken.length : Int) = count ∧
      Reader.runOn (Reader.take count) bytes = (.ok taken, rest)) ∨
    ∃ actual rest, Reader.runOn (Reader.take count) bytes =
      (.error (.format (.unexpectedEnd count actual)), rest) := by
  rw [runOn_take]
  by_cases hword : 0x8000000000000000 ≤ count ∨ count < -0x8000000000000000
  · exact Or.inl ⟨hword, if_pos hword⟩
  · right
    rw [if_neg hword]
    dsimp only
    generalize (if count < 0 then bytes.length else count.toNat) = n
    by_cases hlength : ((bytes.take n).length : Int) = count
    · exact Or.inl ⟨by omega, _, _, hlength, if_pos hlength⟩
    · exact Or.inr ⟨_, _, if_neg hlength⟩

end Runs

/-- A reader takes exactly these bytes and gives this value. If it is given only a part of them, it
reports a fault in the data. -/
structure Reads (r : Reader β) (bytes : Bytes) (v : β) : Prop where
  whole : ∀ rest, Reader.runOn r (bytes ++ rest) = (.ok v, rest)
  cut : ∀ k, k < bytes.length → ∃ f, (Reader.runOn r (bytes.take k)).1 = .error (.format f)

namespace Reads

lemma pure (v : β) : Reads (Pure.pure v) [] v where
  whole := fun _ => rfl
  cut := fun k hk => absurd hk (Nat.not_lt_zero k)

/-- Two readers in sequence take the bytes of the first one and those of the second one. -/
theorem bind {r : Reader β} {f : β → Reader γ} {b₁ b₂ : Bytes} {v : β} {w : γ} (h₁ : Reads r b₁ v)
    (h₂ : Reads (f v) b₂ w) : Reads (r >>= f) (b₁ ++ b₂) w where
  whole := by
    intro rest
    rw [runOn_bind, List.append_assoc, h₁.whole]
    exact h₂.whole rest
  cut := by
    intro k hk
    rw [runOn_bind]
    by_cases hfirst : k < b₁.length
    · obtain ⟨fault, hfault⟩ := h₁.cut k hfirst
      refine ⟨fault, ?_⟩
      rw [List.take_append_of_le_length hfirst.le]
      generalize Reader.runOn r (b₁.take k) = out at hfault
      obtain ⟨result, rest⟩ := out
      cases hfault
      rfl
    · have hsecond : k - b₁.length < b₂.length := by
        rw [List.length_append] at hk
        omega
      obtain ⟨fault, hfault⟩ := h₂.cut (k - b₁.length) hsecond
      refine ⟨fault, ?_⟩
      rw [List.take_append, List.take_of_length_le (not_lt.mp hfirst), h₁.whole]
      exact hfault

lemma map {r : Reader β} {b : Bytes} {v : β} (h : Reads r b v) (f : β → γ) :
    Reads (r >>= fun x => Pure.pure (f x)) b (f v) := by
  have hb : Reads (r >>= fun x => Pure.pure (f x)) (b ++ []) (f v) := h.bind (Reads.pure (f v))
  rwa [List.append_nil] at hb

/-- Bytes of a known number. -/
theorem take {bytes : Bytes} (hsize : bytes.length < 0x8000000000000000) :
    Reads (Reader.take bytes.length) bytes bytes where
  whole := by
    intro rest
    have hlow : ¬(0x8000000000000000 ≤ (bytes.length : Int) ∨
        (bytes.length : Int) < -0x8000000000000000) := by omega
    have hneg : ¬(bytes.length : Int) < 0 := by omega
    rw [runOn_take, if_neg hlow]
    simp [hneg]
  cut := by
    intro k hk
    have hlow : ¬(0x8000000000000000 ≤ (bytes.length : Int) ∨
        (bytes.length : Int) < -0x8000000000000000) := by omega
    have hneg : ¬(bytes.length : Int) < 0 := by omega
    have hshort : ¬((bytes.take k).take bytes.length).length = bytes.length := by
      rw [List.length_take, List.length_take]
      omega
    refine ⟨.unexpectedEnd bytes.length ((bytes.take k).take bytes.length).length, ?_⟩
    rw [runOn_take, if_neg hlow]
    simp only [hneg, if_false, Int.toNat_natCast, Nat.cast_inj, hshort]

lemma take_of_length {bytes : Bytes} {count : Int} (hcount : count = bytes.length)
    (hsize : bytes.length < 0x8000000000000000) : Reads (Reader.take count) bytes bytes := by
  subst hcount
  exact take hsize

/-- A reader run once for each of several pieces. -/
theorem replicate {r : Reader β} {pieces : List Bytes} {vs : List β}
    (h : List.Forall₂ (Reads r) pieces vs) :
    Reads (Reader.replicate r vs.length) pieces.flatten vs := by
  induction h with
  | nil => exact Reads.pure []
  | cons hfirst _ ih => exact hfirst.bind (ih.map _)

end Reads

end WideDeep.Proofs
