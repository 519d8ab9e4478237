import Mathlib.Tactic
import WideDeep.ModelFile.Reader
import WideDeep.Proofs.Fields

/-!
# What readers give

Whatever the bytes are, a value that is read from them is one that the bytes of its field can hold:
a number that fits a word, a text of no more than two bytes count, a list as long as was declared.
-/

namespace WideDeep.Proofs

variable {β γ : Type}

/-- Everything that a reader gives has a property, whatever it reads. -/
def Yields (P : β → Prop) (r : Reader β) : Prop :=
  ∀ bytes v rest, Reader.runOn r bytes = (.ok v, rest) → P v

namespace Yields

variable {P : β → Prop} {Q : γ → Prop} {r : Reader β}

lemma pure {v : β} (h : P v) : Yields P (Pure.pure v : Reader β) := by
  intro bytes w rest hrun
  cases hrun
  exact h

lemma fault (f : FormatFault) : Yields P (Reader.fault f : Reader β) := by
  intro bytes v rest hrun
  cases hrun

lemma any (r : Reader β) : Yields (fun _ => True) r := fun _ _ _ _ => trivial

theorem bind {f : β → Reader γ} (hr : Yields P r) (hf : ∀ v, P v → Yields Q (f v)) :
    Yields Q (r >>= f) := by
  intro bytes w rest hrun
  rw [runOn_bind] at hrun
  cases hfirst : Reader.runOn r bytes with
  | mk result left =>
    rw [hfirst] at hrun
    cases result with
    | error e => cases hrun
    | ok v => exact hf v (hr bytes v left hfirst) left w rest hrun

/-- What stands behind a check may use what has been checked. -/
theorem check {c : Prop} [Decidable c] {f : FormatFault} {k : PUnit → Reader β}
    (hk : ¬c → Yields P (k ⟨⟩)) :
    Yields P (if c then (Reader.fault f : Reader PUnit) >>= k else k ⟨⟩) := by
  by_cases hc : c
  · rw [if_pos hc]
    intro bytes v rest hrun
    cases hrun
  · rw [if_neg hc]
    exact hk hc

lemma liftExcept (result : Except Error β) :
    Yields (fun v => result = .ok v) (Model.read.liftExcept result) := by
  intro bytes v rest hrun
  cases result with
  | error e => cases hrun
  | ok w =>
    cases hrun
    rfl

end Yields

section Bytes

/-- Bytes hold no number beyond their count. -/
lemma ofBigEndian_lt (bytes : Bytes) : ofBigEndian bytes < 256 ^ bytes.length := by
  induction bytes with
  | nil => simp [ofBigEndian]
  | cons b rest ih =>
    have hbyte : b.toNat + 1 ≤ 256 := b.toNat_lt
    calc ofBigEndian (b :: rest) = 256 ^ rest.length * b.toNat + ofBigEndian rest :=
          ofBigEndian_cons b rest
      _ < 256 ^ rest.length * (b.toNat + 1) := by
          rw [Nat.mul_succ]
          omega
      _ ≤ 256 ^ (b :: rest).length := by
          rw [List.length_cons, pow_succ]
          exact Nat.mul_le_mul_left _ hbyte

lemma fitsWord_ofWordBytes {bytes : Bytes} (h : bytes.length ≤ 4) :
    fitsWord (ofWordBytes bytes) = true := by
  have hlt : ofBigEndian bytes < 256 ^ 4 :=
    (ofBigEndian_lt bytes).trans_le (Nat.pow_le_pow_right (by decide) h)
  unfold fitsWord ofWordBytes
  simp only [Bool.and_eq_true, decide_eq_true_eq]
  split <;> omega

lemma length_groups (size n : Nat) (bytes : Bytes) : (Reader.groups size n bytes).length = n := by
  induction n generalizing bytes with
  | zero => rfl
  | succ n ih => rw [Reader.groups, List.length_cons, ih]

lemma length_of_mem_groups {size n : Nat} {bytes group : Bytes}
    (h : group ∈ Reader.groups size n bytes) : group.length ≤ size := by
  induction n generalizing bytes with
  | zero => cases h
  | succ n ih =>
    rw [Reader.groups, List.mem_cons] at h
    rcases h with rfl | hrest
    · rw [List.length_take]
      exact Nat.min_le_left _ _
    · exact ih hrest

/-- Bytes that are read as a text are its content. -/
lemma content_of_fromUTF8? {content : Bytes} {s : String}
    (h : String.fromUTF8? ⟨content.toArray⟩ = some s) : content = s.toUTF8.data.toList := by
  unfold String.fromUTF8? at h
  split at h
  · cases h
    rfl
  · cases h

end Bytes

namespace Yields

variable {P : β → Prop} {r : Reader β}

lemma mono {Q : β → Prop} (hr : Yields P r) (h : ∀ v, P v → Q v) : Yields Q r :=
  fun bytes v rest hrun => h v (hr bytes v rest hrun)

/-- As many bytes as were asked for, and no more than a machine word counts. -/
theorem take (count : Int) : Yields
    (fun bytes => (bytes.length : Int) = count ∧ count < 0x8000000000000000) (Reader.take count) := by
  intro bytes v rest hrun
  rcases take_cases count bytes with ⟨-, htake⟩ | ⟨hword, taken, left, hlength, htake⟩ | ⟨_, _, htake⟩
  · cases htake.symm.trans hrun
  · cases htake.symm.trans hrun
    exact ⟨hlength, hword⟩
  · cases htake.symm.trans hrun

lemma int : Yields (fun n => fitsWord n = true) Reader.int := by
  refine (Yields.take 4).bind fun bytes hbytes => Yields.pure (fitsWord_ofWordBytes ?_)
  omega

lemma length : Yields (fun n : Nat => fitsWord n = true) Reader.length := by
  refine Yields.int.bind fun n hfits => Yields.check fun hneg => Yields.pure ?_
  rwa [Int.toNat_of_nonneg (not_lt.mp hneg)]

/-- A text is read from as many bytes as two bytes can count. -/
lemma text : Yields (fun s : String => s.toUTF8.data.toList.length ≤ 0xffff) Reader.text := by
  refine (Yields.take 2).bind fun head hhead => (Yields.take _).bind fun content hcontent => ?_
  have hsize : ofBigEndian head < 256 ^ 2 := by
    have hlt := ofBigEndian_lt head
    rwa [show head.length = 2 by omega] at hlt
  split
  · rename_i s hs
    refine Yields.pure ?_
    rw [← content_of_fromUTF8? hs]
    omega
  · exact Yields.fault _

/-- Single precision numbers, whose bytes a machine word counts. -/
lemma singles (count : Nat) : Yields
    (fun xs : List Float32 => xs.length = count ∧ count * 4 < 0x8000000000000000)
    (Reader.singles count) := by
  refine (Yields.take _).bind fun bytes hbytes => Yields.pure ⟨?_, by omega⟩
  rw [List.length_map, length_groups, Int.toNat_natCast]

lemma doubles : Yields (fun xs : List Float => fitsWord xs.length = true) Reader.doubles := by
  refine Yields.length.bind fun count hcount => (Yields.take _).bind fun bytes _ => ?_
  have hlength : ((Reader.groups 8 count bytes).map ofDoubleBytes).length = count := by
    rw [List.length_map, length_groups]
  refine Yields.pure ?_
  rw [hlength]
  exact hcount

lemma ints : Yields (fun ns : List Int => fitsWord ns.length = true ∧ ns.all fitsWord = true)
    Reader.ints := by
  refine Yields.length.bind fun count hcount => (Yields.take _).bind fun bytes _ => ?_
  have hlength : ((Reader.groups 4 count bytes).map ofWordBytes).length = count := by
    rw [List.length_map, length_groups]
  refine Yields.pure ⟨?_, List.all_eq_true.mpr fun n hn => ?_⟩
  · rw [hlength]
    exact hcount
  · obtain ⟨group, hgroup, rfl⟩ := List.mem_map.mp hn
    exact fitsWord_ofWordBytes (length_of_mem_groups hgroup)

/-- As many values as were asked for, each one as it is read. -/
theorem replicate (hr : Yields P r) (n : Nat) :
    Yields (fun vs => vs.length = n ∧ ∀ v ∈ vs, P v) (Reader.replicate r n) := by
  induction n with
  | zero => exact Yields.pure ⟨rfl, fun v hv => by cases hv⟩
  | succ n ih =>
    refine hr.bind fun v hv => ih.bind fun vs hvs => Yields.pure ⟨?_, fun w hw => ?_⟩
    · rw [List.length_cons, hvs.1]
    · rcases List.mem_cons.mp hw with rfl | hrest
      · exact hv
      · exact hvs.2 w hrest

end Yields

end WideDeep.Proofs
