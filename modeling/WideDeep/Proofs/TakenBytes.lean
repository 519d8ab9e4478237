import Mathlib.Tactic
import WideDeep.Proofs.Fields
import WideDeep.Proofs.ReadValues

/-!
# Bytes that readers take

The bytes that a reader takes off the front are those that the field of the value is written as. A
truth value is the exception, since every byte but zero counts as true, and so is a not-a-number, whose
bits are not kept.
-/

namespace WideDeep.Proofs
open Binary

variable {β γ : Type}

section BigEndian

/-- Bytes of one length stand for different numbers. -/
theorem ofBigEndian_inj {xs ys : Bytes} (hlength : xs.length = ys.length)
    (h : ofBigEndian xs = ofBigEndian ys) : xs = ys := by
  induction xs generalizing ys with
  | nil => exact (List.eq_nil_of_length_eq_zero hlength.symm).symm
  | cons x xs ih =>
    cases ys with
    | nil => cases hlength
    | cons y ys =>
      have hrest : xs.length = ys.length := Nat.succ.inj hlength
      have hx := ofBigEndian_lt xs
      have hy := ofBigEndian_lt ys
      rw [ofBigEndian_cons, ofBigEndian_cons, hrest] at h
      rw [hrest] at hx
      have hhead : x.toNat = y.toNat := by
        have hdiv := congrArg (· / 256 ^ ys.length) h
        simpa [Nat.mul_add_div, Nat.div_eq_of_lt hx, Nat.div_eq_of_lt hy] using hdiv
      rw [hhead] at h
      rw [UInt8.toNat_inj.mp hhead, ih hrest (Nat.add_left_cancel h)]

/-- The bytes of the number that bytes stand for are these bytes. -/
theorem bigEndian_ofBigEndian (bytes : Bytes) : bigEndian bytes.length (ofBigEndian bytes) = bytes :=
  ofBigEndian_inj (length_bigEndian _ _) (ofBigEndian_bigEndian (ofBigEndian_lt bytes))

lemma wordBytes_ofWordBytes {bytes : Bytes} (h : bytes.length = 4) :
    wordBytes (ofWordBytes bytes) = bytes := by
  have hlt : ofBigEndian bytes < 256 ^ 4 := h ▸ ofBigEndian_lt bytes
  have hback := bigEndian_ofBigEndian bytes
  rw [h] at hback
  have hword : (ofWordBytes bytes % 0x100000000).toNat = ofBigEndian bytes := by
    unfold ofWordBytes
    dsimp only
    split_ifs <;> omega
  rw [wordBytes, hword, hback]

/-- The bits of a number are kept unless it is the not-a-number. -/
theorem toBits_ofBits {bits : UInt64} (h : isNaN (Float.ofBits bits) = false) :
    (Float.ofBits bits).toBits = bits := by
  have hnumber : bits.toNat % doubleSign ≤ double.infinity := by
    by_contra hlarge
    have hbig : infinityPattern Float.Model.Format.binary64 < bits.toBitVec.toNat % 2 ^ (11 + 52) := by
      simpa [infinityPattern, doubleSign, double] using hlarge
    obtain ⟨hexp, hmant⟩ :=
      (@infinityPattern_lt Float.Model.Format.binary64 bits.toBitVec).mp hbig
    have hunpack : Float.Model.UnpackedFloat.unpack Float.Model.Format.binary64 bits.toBitVec =
        .notANumber := by
      unfold Float.Model.UnpackedFloat.unpack
      rw [if_pos hexp, if_neg hmant]
    have hnan : Float.ofBits bits = nan := by
      unfold Float.ofBits Float.Model.ofBits
      rw [hunpack]
      rfl
    rw [hnan] at h
    exact absurd h (by decide)
  obtain ⟨s, hs⟩ := exists_signedPattern doubleSign (n := bits.toNat) bits.toNat_lt
  have hpattern : Float.ofBits bits = doubleOfPattern s (bits.toNat % doubleSign) := by
    change _ = Float.ofBits (UInt64.ofNat (signedPattern doubleSign s (bits.toNat % doubleSign)))
    rw [← hs, UInt64.ofNat_toNat]
  rw [← UInt64.toNat_inj, hpattern, toBits_doubleOfPattern s hnumber]
  exact hs.symm

lemma doubleBytes_ofDoubleBytes {bytes : Bytes} (h : bytes.length = 8)
    (hnumber : isNaN (ofDoubleBytes bytes) = false) :
    doubleBytes (.plain (ofDoubleBytes bytes)) = bytes := by
  have hlt : ofBigEndian bytes < 256 ^ 8 := h ▸ ofBigEndian_lt bytes
  have hback := bigEndian_ofBigEndian bytes
  rw [h] at hback
  have hbits : (Stored.plain (ofDoubleBytes bytes)).bits64 = ofBigEndian bytes := by
    unfold Stored.bits64 Stored.nanSign Stored.plain
    dsimp only
    rw [hnumber, Bool.false_and, if_neg Bool.false_ne_true, Nat.zero_add]
    unfold ofDoubleBytes at hnumber ⊢
    rw [toBits_ofBits hnumber, UInt64.toNat_ofNat_of_lt' hlt]
  rw [doubleBytes, hbits, hback]

lemma length_eq_of_mem_groups {size n : Nat} {bytes group : Bytes} (h : bytes.length = n * size)
    (hgroup : group ∈ Reader.groups size n bytes) : group.length = size := by
  induction n generalizing bytes with
  | zero => cases hgroup
  | succ n ih =>
    rw [Nat.succ_mul] at h
    rw [Reader.groups, List.mem_cons] at hgroup
    rcases hgroup with rfl | hrest
    · rw [List.length_take]
      omega
    · exact ih (by rw [List.length_drop]; omega) hrest

lemma flatten_groups {size n : Nat} {bytes : Bytes} (h : bytes.length = n * size) :
    (Reader.groups size n bytes).flatten = bytes := by
  induction n generalizing bytes with
  | zero =>
    rw [Nat.zero_mul] at h
    exact (List.eq_nil_of_length_eq_zero h).symm
  | succ n ih =>
    rw [Nat.succ_mul] at h
    rw [Reader.groups, List.flatten_cons, ih (by rw [List.length_drop]; omega),
      List.take_append_drop]

end BigEndian

/-- A reader that gives a value takes bytes off the front that are in this relation to it. -/
def Takes (R : β → Bytes → Prop) (r : Reader β) : Prop :=
  ∀ bytes v rest, Reader.runOn r bytes = (.ok v, rest) → ∃ taken, bytes = taken ++ rest ∧ R v taken

namespace Takes

variable {R : β → Bytes → Prop} {S : γ → Bytes → Prop} {r : Reader β}

lemma pure {v : β} (h : R v []) : Takes R (Pure.pure v : Reader β) := by
  intro bytes w rest hrun
  cases hrun
  exact ⟨[], rfl, h⟩

lemma fault (f : FormatFault) : Takes R (Reader.fault f : Reader β) := by
  intro bytes v rest hrun
  cases hrun

/-- The bytes of the first of two readers stand before those of the second one. -/
theorem bind {f : β → Reader γ} (hr : Takes R r)
    (hf : ∀ v taken, R v taken → Takes (fun w more => S w (taken ++ more)) (f v)) :
    Takes S (r >>= f) := by
  intro bytes w rest hrun
  rw [runOn_bind] at hrun
  cases hfirst : Reader.runOn r bytes with
  | mk result left =>
    rw [hfirst] at hrun
    cases result with
    | error e => cases hrun
    | ok v =>
      obtain ⟨taken, rfl, hv⟩ := hr bytes v left hfirst
      obtain ⟨more, rfl, hw⟩ := hf v taken hv left w rest hrun
      exact ⟨taken ++ more, (List.append_assoc _ _ _).symm, hw⟩

/-- The value is made of what has been read, and nothing more is taken. -/
lemma map {f : β → γ} (hr : Takes R r) (h : ∀ v taken, R v taken → S (f v) taken) :
    Takes S (r >>= fun v => Pure.pure (f v)) := by
  refine hr.bind fun v taken hv => Takes.pure ?_
  rw [List.append_nil]
  exact h v taken hv

/-- What stands behind a check may use what has been checked. -/
lemma check {c : Prop} [Decidable c] {f : FormatFault} {k : PUnit → Reader β}
    (hk : ¬c → Takes R (k ⟨⟩)) :
    Takes R (if c then (Reader.fault f : Reader PUnit) >>= k else k ⟨⟩) := by
  by_cases hc : c
  · rw [if_pos hc]
    intro bytes v rest hrun
    cases hrun
  · rw [if_neg hc]
    exact hk hc

/-- As many bytes as were asked for. -/
theorem take (count : Int) : Takes (fun bytes taken => bytes = taken ∧ (bytes.length : Int) = count)
    (Reader.take count) := by
  intro bytes v rest hrun
  rw [runOn_take] at hrun
  split at hrun
  · cases hrun
  · dsimp only at hrun
    generalize (if count < 0 then bytes.length else count.toNat) = n at hrun
    by_cases hlength : ((bytes.take n).length : Int) = count
    · rw [if_pos hlength] at hrun
      cases hrun
      exact ⟨_, (List.take_append_drop n bytes).symm, rfl, hlength⟩
    · rw [if_neg hlength] at hrun
      cases hrun

/-- The bytes of an integer. -/
theorem int : Takes (fun n taken => (Field.int n).encode = .ok taken) Reader.int := by
  refine (Takes.take 4).map ?_
  rintro bytes _ ⟨rfl, hlength⟩
  rw [encode_one rfl, word_eq_ok]
  exact ⟨fitsWord_ofWordBytes (by omega), (wordBytes_ofWordBytes (by omega)).symm⟩

theorem length : Takes (fun (n : Nat) taken => (Field.int n).encode = .ok taken) Reader.length := by
  refine Takes.int.bind fun n taken hn => Takes.check fun hneg => Takes.pure ?_
  rwa [Int.toNat_of_nonneg (not_lt.mp hneg), List.append_nil]

/-- The byte of a truth value. -/
theorem bool : Takes (fun b taken => ∃ byte : UInt8, taken = [byte] ∧ b = (byte != 0)) Reader.bool := by
  refine (Takes.take 1).map ?_
  rintro bytes _ ⟨rfl, hlength⟩
  obtain ⟨byte, rfl⟩ := List.length_eq_one_iff.mp (show bytes.length = 1 by omega)
  refine ⟨byte, rfl, ?_⟩
  rw [Bool.eq_iff_iff, bne_iff_ne, bne_iff_ne, ne_eq, ne_eq, ← UInt8.toNat_inj]
  simp [ofBigEndian]

/-- The bytes of a text. -/
theorem text : Takes (fun s taken => (Field.text (some s)).encode = .ok taken) Reader.text := by
  refine (Takes.take 2).bind ?_
  rintro size _ ⟨rfl, hsize⟩
  refine (Takes.take _).bind ?_
  rintro content _ ⟨rfl, hcontent⟩
  split
  · rename_i s hs
    have htwo : size.length = 2 := by omega
    have hcount : ofBigEndian size < 256 ^ 2 := htwo ▸ ofBigEndian_lt size
    have hback := bigEndian_ofBigEndian size
    rw [htwo, show ofBigEndian size = content.length by omega] at hback
    refine Takes.pure (text_eq_ok.mpr ⟨content, content_of_fromUTF8? hs, by omega, ?_⟩)
    rw [List.append_nil, hback]
  · exact Takes.fault _

theorem double : Takes (fun x taken => isNaN x = false → (Field.double (.plain x)).encode = .ok taken)
    Reader.double := by
  refine (Takes.take 8).map ?_
  rintro bytes _ ⟨rfl, hlength⟩ hnumber
  rw [encode_one rfl, doubleBytes_ofDoubleBytes (by omega) hnumber]

/-- The bytes of a list of numbers. -/
theorem doubles : Takes (fun xs taken => (∀ x ∈ xs, isNaN x = false) →
    (Field.doubles (xs.map Stored.plain)).encode = .ok taken) Reader.doubles := by
  refine Takes.length.bind fun count head hcount => (Takes.take _).map ?_
  rintro bytes _ ⟨rfl, hlength⟩ hnumbers
  rw [encode_one rfl] at hcount
  have hsize : bytes.length = count * 8 := by omega
  obtain ⟨groups, hgroups⟩ : ∃ groups, groups = Reader.groups 8 count bytes := ⟨_, rfl⟩
  rw [← hgroups] at hnumbers ⊢
  have hwritten : ∀ group ∈ groups, doubleBytes (.plain (ofDoubleBytes group)) = group :=
    fun group hgroup => doubleBytes_ofDoubleBytes
      (length_eq_of_mem_groups hsize (hgroups ▸ hgroup)) (hnumbers _ (List.mem_map_of_mem hgroup))
  have hback : ((groups.map ofDoubleBytes).map Stored.plain).flatMap doubleBytes = bytes := by
    rw [List.flatMap_def, List.map_map, List.map_map]
    refine (congrArg List.flatten (List.map_congr_left hwritten)).trans ?_
    rw [List.map_id', hgroups, flatten_groups hsize]
  have hlengths : ((groups.map ofDoubleBytes).map Stored.plain).length = count := by
    rw [List.length_map, List.length_map, hgroups, length_groups]
  have hpieces : (Field.doubles ((groups.map ofDoubleBytes).map Stored.plain)).pieces =
      [Field.word count, .ok bytes] := by
    rw [Field.pieces, hlengths, hback]
  exact (encode_two hpieces).mpr ⟨head, bytes, hcount, rfl, rfl⟩

/-- The fields of several values read one after the other. -/
theorem replicate {field : β → Field} (hr : Takes (fun v taken => (field v).encode = .ok taken) r)
    (n : Nat) : Takes (fun vs taken => vs.length = n ∧ Field.encodeAll (vs.map field) = .ok taken)
      (Reader.replicate r n) := by
  induction n with
  | zero => exact Takes.pure ⟨rfl, rfl⟩
  | succ n ih =>
    refine hr.bind fun v taken hv => ih.map ?_
    rintro vs more ⟨hlength, hvs⟩
    exact ⟨congrArg Nat.succ hlength, (encodeAll_cons _ _ _).mpr ⟨taken, more, hv, hvs, rfl⟩⟩

end Takes

end WideDeep.Proofs
