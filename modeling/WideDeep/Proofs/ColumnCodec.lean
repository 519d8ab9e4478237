import Mathlib.Tactic
import WideDeep.ModelFile.Reader
import WideDeep.Proofs.Fields
import WideDeep.Proofs.KeyedLists

/-!
# Column statistics are read back

The reader of column statistics gives back every field that the writer put into a file. A name and
labels that are texts come back as these texts, and each number as the double that was stored.
-/

namespace WideDeep.Proofs
open Binary

section Columns

variable {L N : Type}

lemma kindOfFlags_kind (k : ColumnKind) :
    ColumnStats.kindOfFlags (k != .numerical) (k != .categorical) = k := by
  cases k <;> rfl

/-- Statistics are accepted as they are. -/
lemma make_self (shownName : String) (c : ColumnStatsOf L N) :
    ColumnStatsOf.make shownName c.number c.name c.kind c.mean c.stddev c.cutoff c.boundaries
      c.labels c.countEvidence c.weightedEvidence c.evidenceMean c.evidenceStddev c.weightedMean
      c.weightedStddev = .ok c := by
  unfold ColumnStatsOf.make
  rw [dif_pos c.countEvidence_fits, dif_pos c.weightedEvidence_fits]

lemma puts_column : Puts (fun c : ColumnStatsOf L N => c.number) ColumnStatsOf.put where
  empty := fun _ => rfl
  same := fun d rest c h => by rw [ColumnStatsOf.put, if_pos (beq_iff_eq.mpr h)]
  other := fun d rest c h => by rw [ColumnStatsOf.put, if_neg (by rwa [beq_iff_eq])]

/-- Columns with distinct numbers are all kept. -/
theorem byNumber_of_nodup {columns : List (ColumnStatsOf L N)}
    (h : (columns.map (·.number)).Nodup) : ColumnStatsOf.byNumber columns = columns :=
  puts_column.foldl_of_nodup h

/-- No number is left to two columns. -/
lemma byNumber_nodup (columns : List (ColumnStatsOf L N)) :
    ((ColumnStatsOf.byNumber columns).map (·.number)).Nodup :=
  puts_column.foldl_nodup columns List.nodup_nil

lemma length_byNumber_le (columns : List (ColumnStatsOf L N)) :
    (ColumnStatsOf.byNumber columns).length ≤ columns.length := by
  have h := puts_column.length_foldl_le [] columns
  rwa [List.length_nil, Nat.zero_add] at h

/-- Statistics with texts are written the same way whether the texts are known to be texts or
not. -/
lemma fields_map_text (c : ColumnStatsOf String (Stored Float)) :
    ColumnRecord.fields (c.map .text id) = c.fieldsWith (fun s => .text (some s)) id := by
  unfold ColumnRecord.fields ColumnStatsOf.fieldsWith ColumnStatsOf.map
  simp only [Option.map_map, List.map_map, List.length_map, id_eq, List.map_id]
  rfl

end Columns

/-- The text that a name or a label is read back as. -/
def textOf : Document → String
  | .text s => s
  | _ => ""

/-- A column as it is read back from a file. -/
def restoredColumn (c : ColumnRecord) : ColumnStats :=
  { c.map textOf (fun x => x.value) with name := some ((c.name.map textOf).getD "") }

/-- A column with a name and labels that are texts keeps them. -/
lemma restoredColumn_text (c : ColumnStatsOf String (Stored Float)) (hname : c.name.isSome = true) :
    restoredColumn (c.map .text id) = c.map id fun x => x.value := by
  obtain ⟨name, hsome⟩ := Option.isSome_iff_exists.mp hname
  have htexts : ∀ labels : List String, (labels.map Document.text).map textOf = labels := by
    intro labels
    rw [List.map_map]
    exact List.map_id _
  unfold restoredColumn ColumnStatsOf.map
  simp [hsome, htexts, textOf]

namespace Decodes

lemma textField (d : Document) : Decodes [ColumnRecord.textField d] Reader.text (textOf d) := by
  unfold ColumnRecord.textField
  cases d with
  | text s => exact Decodes.text (some s)
  | _ =>
    dsimp only
    split
    · exact Decodes.text none
    · exact Decodes.refused _ _ _

lemma textFields (ds : List Document) :
    Decodes (ds.map ColumnRecord.textField) (Reader.replicate Reader.text ds.length)
      (ds.map textOf) := by
  rw [List.map_eq_flatMap]
  exact Decodes.replicate fun d _ => Decodes.textField d

/-- A column is read back, whatever its name and labels are. -/
theorem record (c : ColumnRecord) : Decodes c.fields ColumnStats.read (restoredColumn c) := by
  have hname : Decodes [(c.name.map ColumnRecord.textField).getD (.text none)] Reader.text
      ((c.name.map textOf).getD "") := by
    cases c.name with
    | none => exact Decodes.text none
    | some d => exact Decodes.textField d
  unfold ColumnRecord.fields ColumnStatsOf.fieldsWith ColumnStats.read
  rw [List.append_assoc]
  refine (Decodes.int _).cons <| hname.cons <| (Decodes.bool _).cons <|
    (Decodes.bool _).cons <| (Decodes.doubles _).cons <| (Decodes.length _).cons <|
    (Decodes.textFields _).append <| (Decodes.doubles _).cons <| (Decodes.doubles _).cons <|
    (Decodes.double _).cons <| (Decodes.double _).cons <| (Decodes.double _).cons <|
    (Decodes.double _).cons <| (Decodes.double _).cons <| (Decodes.double _).cons <|
    (Decodes.double _).cons ?_
  have hmake := make_self ((c.name.map textOf).getD "") (restoredColumn c)
  rw [kindOfFlags_kind]
  simp only [List.map_id, id_eq]
  have hlast : ∀ made : Except Error ColumnStats, made = .ok (restoredColumn c) →
      Decodes []
        (match made with
        | .ok c => Pure.pure c
        | .error e => Reader.fault (.invalidColumn (e.message?.getD "")))
        (restoredColumn c) := by
    rintro _ rfl
    exact Decodes.pure _
  exact hlast _ hmake

/-- The statistics of a column that has a name. -/
theorem column (c : ColumnStatsOf String (Stored Float)) (hname : c.name.isSome = true) :
    Decodes (c.fieldsWith (fun s => .text (some s)) id) ColumnStats.read
      (c.map id fun x => x.value) := by
  rw [← fields_map_text, ← restoredColumn_text c hname]
  exact Decodes.record _

end Decodes

end WideDeep.Proofs
