import Mathlib.Tactic
import WideDeep.Proofs.ResavedModels
import WideDeep.Proofs.TakenBytes

/-!
# Records of columns are written again

A record of a column whose flags are those of a kind and whose numbers are numbers is written again as
the bytes that it was read from. So there is one such record for the statistics of a column.
-/

namespace WideDeep.Proofs
open Binary

/-- The bytes of the two flags of a record, which stand behind the number and the name. -/
def flagsOf (bytes : Bytes) : Bytes :=
  let size := ofBigEndian ((bytes.drop 4).take 2)
  (bytes.drop (6 + size)).take 2

/-- The flags of a kind: each is zero or one, and one of them is not zero. -/
def kindFlags : List Bytes :=
  [[0, 1], [1, 0], [1, 1]]

/-- The numbers of the statistics of a column. -/
def numbersOf (c : ColumnStats) : List Float :=
  c.boundaries ++ (c.countEvidence ++ (c.weightedEvidence ++
    [c.mean, c.stddev, c.evidenceMean, c.evidenceStddev, c.weightedMean, c.weightedStddev, c.cutoff]))

/-- Bytes begin with a record of these statistics, whose flags are those of a kind and whose numbers are
numbers. The rest is left. -/
structure Canonical (bytes : Bytes) (c : ColumnStats) (rest : Bytes) : Prop where
  read : Reader.runOn ColumnStats.read bytes = (.ok c, rest)
  flags : flagsOf bytes ∈ kindFlags
  numbers : ∀ x ∈ numbersOf c, isNaN x = false

section Flags

/-- The flags are found behind the bytes of a number and of a text. -/
lemma flagsOf_append {n : Int} {s : String} {number name : Bytes}
    (hnumber : (Field.int n).encode = .ok number) (hname : (Field.text (some s)).encode = .ok name)
    (a b : UInt8) (more : Bytes) : flagsOf (number ++ (name ++ ([a] ++ ([b] ++ more)))) = [a, b] := by
  rw [encode_one rfl, word_eq_ok] at hnumber
  obtain ⟨content, -, hshort, rfl⟩ := text_eq_ok.mp hname
  have hfour : number.length = 4 := hnumber.2 ▸ length_wordBytes n
  have hhead : (bigEndian 2 content.length).length = 2 := length_bigEndian 2 _
  have hsize : ofBigEndian (bigEndian 2 content.length) = content.length :=
    ofBigEndian_bigEndian (by omega)
  unfold flagsOf
  rw [List.drop_left' hfour, List.append_assoc, List.take_left' hhead, hsize]
  have hbefore : (number ++ (bigEndian 2 content.length ++ content)).length = 6 + content.length := by
    rw [List.length_append, List.length_append]
    omega
  rw [← List.append_assoc (bigEndian 2 content.length), ← List.append_assoc number]
  dsimp only
  rw [List.drop_left' hbefore]
  rfl

/-- The flags of a kind are written as they have been read. -/
lemma encode_flags {a b : UInt8} (h : [a, b] ∈ kindFlags) :
    (Field.bool (ColumnStats.kindOfFlags (a != 0) (b != 0) != .numerical)).encode = .ok [a] ∧
      (Field.bool (ColumnStats.kindOfFlags (a != 0) (b != 0) != .categorical)).encode = .ok [b] := by
  simp only [kindFlags, List.mem_cons, List.cons.injEq, and_true, List.not_mem_nil, or_false] at h
  rcases h with ⟨rfl, rfl⟩ | ⟨rfl, rfl⟩ | ⟨rfl, rfl⟩ <;> exact ⟨rfl, rfl⟩

end Flags

section Records

variable {c : ColumnStats}

lemma encodeAll_cons_ok {f : Field} {fs : List Field} {b₁ b₂ : Bytes} (h₁ : f.encode = .ok b₁)
    (h₂ : Field.encodeAll fs = .ok b₂) : Field.encodeAll (f :: fs) = .ok (b₁ ++ b₂) :=
  (encodeAll_cons _ _ _).mpr ⟨b₁, b₂, h₁, h₂, rfl⟩

/-- A record has flags, and the bytes taken for it are those that are written if the flags are those
of a kind and there is no not-a-number. -/
theorem takes_column : Takes (fun c taken => ∃ flags, (∀ more, flagsOf (taken ++ more) = flags) ∧
    (flags ∈ kindFlags → (∀ x ∈ numbersOf c, isNaN x = false) →
      Field.encodeAll c.fields = .ok taken)) ColumnStats.read := by
  refine Takes.int.bind fun number t₁ h₁ => Takes.text.bind fun name t₂ h₂ => Takes.bool.bind ?_
  rintro _ _ ⟨a, rfl, rfl⟩
  refine Takes.bool.bind ?_
  rintro _ _ ⟨b, rfl, rfl⟩
  refine Takes.doubles.bind fun boundaries t₅ h₅ => Takes.length.bind fun count t₆ h₆ =>
    (Takes.text.replicate count).bind ?_
  rintro labels t₇ ⟨rfl, h₇⟩
  refine Takes.doubles.bind fun countEvidence t₈ h₈ => Takes.doubles.bind fun weightedEvidence t₉ h₉ =>
    Takes.double.bind fun mean t₁₀ h₁₀ => Takes.double.bind fun stddev t₁₁ h₁₁ =>
    Takes.double.bind fun evidenceMean t₁₂ h₁₂ => Takes.double.bind fun evidenceStddev t₁₃ h₁₃ =>
    Takes.double.bind fun weightedMean t₁₄ h₁₄ => Takes.double.bind fun weightedStddev t₁₅ h₁₅ =>
    Takes.double.bind fun cutoff t₁₆ h₁₆ => ?_
  split
  · rename_i c hmake
    obtain ⟨hc, hw, rfl⟩ := make_eq_ok hmake
    refine Takes.pure ⟨[a, b], fun more => ?_, fun hflags hnan => ?_⟩
    · simp only [List.append_assoc]
      exact flagsOf_append h₁ h₂ a b _
    · obtain ⟨h₃, h₄⟩ := encode_flags hflags
      simp only [numbersOf, List.forall_mem_append, List.forall_mem_cons] at hnan
      obtain ⟨n₅, n₈, n₉, n₁₀, n₁₁, n₁₂, n₁₃, n₁₄, n₁₅, n₁₆, -⟩ := hnan
      unfold ColumnStats.fields ColumnStatsOf.fieldsWith
      simp only [List.cons_append, List.nil_append, Option.map_some, Option.getD_some]
      refine encodeAll_cons_ok h₁ <| encodeAll_cons_ok h₂ <| encodeAll_cons_ok h₃ <|
        encodeAll_cons_ok h₄ <| encodeAll_cons_ok (h₅ n₅) <| encodeAll_cons_ok h₆ <|
        (encodeAll_append _ _ _).mpr ⟨t₇, _, h₇, ?_, rfl⟩
      exact encodeAll_cons_ok (h₈ n₈) <| encodeAll_cons_ok (h₉ n₉) <|
        encodeAll_cons_ok (h₁₀ n₁₀) <| encodeAll_cons_ok (h₁₁ n₁₁) <|
        encodeAll_cons_ok (h₁₂ n₁₂) <| encodeAll_cons_ok (h₁₃ n₁₃) <|
        encodeAll_cons_ok (h₁₄ n₁₄) <| encodeAll_cons_ok (h₁₅ n₁₅) <|
        encodeAll_cons_ok (h₁₆ n₁₆) rfl
  · exact Takes.fault _

/-- Statistics are written alike whether their texts are known to be texts or not. -/
lemma fields_toRecord (c : ColumnStats) : c.toRecord.fields = c.fields := by
  rw [toRecord_eq, fields_map_text]
  unfold ColumnStats.fields ColumnStatsOf.fieldsWith ColumnStatsOf.map
  simp

/-- What is written of statistics with a name is read back as these statistics. -/
lemma decodes_fields (hname : c.name.isSome = true) : Decodes c.fields ColumnStats.read c := by
  have hrecord := Decodes.record c.toRecord
  rwa [fields_toRecord, restoredColumn_toRecord hname] at hrecord

end Records

/-- A record of a column is written again as the bytes that have been taken for it, and whatever stands
behind these bytes, the statistics are read from them. No other record has the same statistics. -/
theorem column_rewritten {bytes rest : Bytes} {c : ColumnStats} (h : Canonical bytes c rest) :
    ∃ record, bytes = record ++ rest ∧ Field.encodeAll c.fields = .ok record ∧
      (∀ more, Reader.runOn ColumnStats.read (record ++ more) = (.ok c, more)) ∧
      ∀ other left, Canonical other c left → other = record ++ left := by
  have hrecord : ∀ {bytes rest : Bytes}, Canonical bytes c rest →
      ∃ record, bytes = record ++ rest ∧ Field.encodeAll c.fields = .ok record := by
    rintro bytes rest ⟨hread, hflags, hnumbers⟩
    obtain ⟨record, rfl, flags, hfound, hwritten⟩ := takes_column bytes c rest hread
    exact ⟨record, rfl, hwritten (hfound rest ▸ hflags) hnumbers⟩
  obtain ⟨record, hbytes, hwritten⟩ := hrecord h
  obtain ⟨name, hname, -⟩ := (yields_column bytes c rest h.read).name
  have hback := decodes_fields (Option.isSome_iff_exists.mpr ⟨name, hname⟩) record hwritten
  refine ⟨record, hbytes, hwritten, hback.whole, fun other left hother => ?_⟩
  obtain ⟨record', rfl, hwritten'⟩ := hrecord hother
  rw [Except.ok.inj (hwritten'.symm.trans hwritten)]

/-- The record of a column with the number three, the name "a" and the one label "b", whose mean is a
zero with a sign. -/
def labelRecord : Bytes :=
  [0, 0, 0, 3] ++ [0, 1, 97] ++ [1, 0] ++ [0, 0, 0, 0] ++ [0, 0, 0, 1] ++ [0, 1, 98] ++
    [0, 0, 0, 0] ++ [0, 0, 0, 0] ++ 128 :: List.replicate 55 0

theorem column_rewritten_label : ∃ c : ColumnStats,
    Reader.runOn ColumnStats.read (labelRecord ++ [7]) = (.ok c, [7]) ∧
    Field.encodeAll c.fields = .ok labelRecord := by
  have hrest : (Reader.runOn ColumnStats.read (labelRecord ++ [7])).2 = [7] := by decide +kernel
  have hnumbers : ((Reader.runOn ColumnStats.read (labelRecord ++ [7])).1.toOption.map fun c =>
      (numbersOf c).all fun x => !isNaN x) = some true := by decide +kernel
  cases hread : Reader.runOn ColumnStats.read (labelRecord ++ [7]) with
  | mk result rest =>
    rw [hread] at hrest hnumbers
    cases result with
    | error e => cases hnumbers
    | ok c =>
      cases hrest
      have hcanonical : Canonical (labelRecord ++ [7]) c [7] :=
        ⟨hread, by decide, by simpa [Except.toOption] using hnumbers⟩
      obtain ⟨record, hrecord, hwritten, -, -⟩ := column_rewritten hcanonical
      rw [← List.append_cancel_right hrecord] at hwritten
      exact ⟨c, rfl, hwritten⟩

end WideDeep.Proofs
