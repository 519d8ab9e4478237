import Mathlib.Data.List.DropRight
import WideDeep.Proofs.IntegerCodes
import WideDeep.Proofs.LabelledRows
import WideDeep.Proofs.NumberTexts

/-!
# Forms of tags

A tag may be a truth value, an integer, a double or a text. As a value of a record a double that equals
an integer is written like it, and a text without the blanks at its ends; as a tag of a labelling both
are written as they are. So integral doubles and texts with blanks at their ends do not find their own
records, and all other tags find the records that write the same value in any form.
-/

namespace WideDeep.Proofs
open Binary

section Stripping

lemma dropWhile_stripEnds (p : Char → Bool) (cs : List Char) :
    (Text.stripEnds p cs).dropWhile p = Text.stripEnds p cs := by
  have hends : Text.stripEnds p cs = (cs.dropWhile p).rdropWhile p := rfl
  rw [hends, List.dropWhile_eq_self_iff]
  intro hpos
  have hstart := List.rdropWhile_prefix p (cs.dropWhile p)
  have hlong : 0 < (cs.dropWhile p).length := lt_of_lt_of_le hpos hstart.length_le
  rw [hstart.getElem hpos]
  exact List.dropWhile_eq_self_iff.mp (List.dropWhile_idempotent p cs) hlong

lemma strip_strip (s : String) : Text.strip (Text.strip s) = Text.strip s := by
  have hends : ∀ cs : List Char, Text.stripEnds Text.isBlank cs =
      (cs.dropWhile Text.isBlank).rdropWhile Text.isBlank := fun _ => rfl
  unfold Text.strip
  rw [String.toList_ofList, hends (Text.stripEnds Text.isBlank s.toList), dropWhile_stripEnds, hends,
    List.rdropWhile_idempotent]

end Stripping

section Forms

variable {t v : Raw} {s : String}

/-- The tag that a value writes, without blanks at its ends. -/
inductive WritesTag : Raw → String → Prop where
  | bool (b : Bool) : WritesTag (.bool b) (if b then "True" else "False")
  | int (n : Int) : WritesTag (.int n) (toString n)
  | whole (x : Float) (n : Int) (h : placeOf x = some (finitePlace n)) :
      WritesTag (.real x) (toString n)
  | fraction (x : Float) (hnumber : isNaN x = false) (h : ∀ n : Int, placeOf x ≠ some (finitePlace n)) :
      WritesTag (.real x) (Decimal.render x)
  | text (s : String) : WritesTag (.text s) (Text.strip s)
  | other : WritesTag .other "[]"

/-- Two values that write the same tag. -/
def SameTag (t v : Raw) : Prop :=
  ∃ s, WritesTag t s ∧ WritesTag v s

/-- Tags that are written in a labelling as they are in a record: no doubles that equal integers and no
texts with blanks at their ends. -/
def PlainTag : Raw → Prop
  | .missing => False
  | .bool _ => True
  | .int _ => True
  | .real x => isNaN x = false ∧ ∀ n : Int, placeOf x ≠ some (finitePlace n)
  | .text s => Text.strip s = s
  | .other => True

lemma integer?_eq_none {x : Float} :
    integer? x = none ↔ ∀ n : Int, placeOf x ≠ some (finitePlace n) := by
  rw [Option.eq_none_iff_forall_ne_some]
  simp only [ne_eq, integer?_eq_some]

/-- The tag of a record is the one that its value writes. -/
theorem tag?_eq_some : Labelling.tag? v = some s ↔ WritesTag v s := by
  constructor
  · intro h
    obtain ⟨key, hkey, rfl⟩ := Option.map_eq_some_iff.mp h
    cases v with
    | missing => cases hkey
    | bool b =>
      cases hkey
      cases b with
      | false => exact WritesTag.bool false
      | true => exact WritesTag.bool true
    | int n =>
      cases hkey
      rw [Raw.shown, strip_toString]
      exact WritesTag.int n
    | real x =>
      unfold Raw.key? at hkey
      dsimp only at hkey
      split at hkey
      · cases hkey
      · rename_i hnumber
        split at hkey
        · rename_i n hn
          cases hkey
          rw [strip_toString]
          exact WritesTag.whole x n (integer?_eq_some.mp hn)
        · rename_i hnone
          cases hkey
          rw [strip_render]
          exact WritesTag.fraction x (Bool.not_eq_true _ ▸ hnumber) (integer?_eq_none.mp hnone)
    | text t =>
      cases hkey
      exact WritesTag.text t
    | other =>
      cases hkey
      exact WritesTag.other
  · intro h
    cases h with
    | bool b => cases b <;> decide
    | int n => exact congrArg some (strip_toString n)
    | whole x n h =>
      unfold Labelling.tag?
      rw [← key?_int_eq_real.mpr h]
      exact congrArg some (strip_toString n)
    | fraction x hnumber h =>
      unfold Labelling.tag? Raw.key?
      dsimp only
      rw [hnumber, integer?_eq_none.mpr h]
      exact congrArg some (strip_render x)
    | text t => rfl
    | other => decide

/-- A value writes one tag. -/
lemma WritesTag.unique {s' : String} (h : WritesTag v s) (h' : WritesTag v s') : s = s' :=
  Option.some.inj ((tag?_eq_some.mpr h).symm.trans (tag?_eq_some.mpr h'))

/-- No value writes a tag with blanks at its ends. -/
lemma WritesTag.stripped (h : WritesTag v s) : Text.strip s = s := by
  obtain ⟨key, -, rfl⟩ := Option.map_eq_some_iff.mp (tag?_eq_some.mpr h)
  exact strip_strip key

/-- A tag of a labelling finds the values that write it as it is written out. -/
def Finds (t v : Raw) : Prop :=
  WritesTag v t.shown

/-- A tag finds itself exactly if it is plain. -/
theorem finds_self : Finds t t ↔ PlainTag t := by
  cases t with
  | missing => exact ⟨nofun, nofun⟩
  | bool b => exact ⟨fun _ => trivial, fun _ => WritesTag.bool b⟩
  | int n => exact ⟨fun _ => trivial, fun _ => WritesTag.int n⟩
  | real x =>
    constructor
    · intro h
      unfold Finds at h
      generalize hs : (Raw.real x).shown = s at h
      cases h with
      | whole _ n h => exact absurd hs (render_ne_toString x n)
      | fraction _ hnumber h => exact ⟨hnumber, h⟩
    · exact fun h => WritesTag.fraction x h.1 h.2
  | text s =>
    constructor
    · exact fun h => h.stripped
    · intro h
      have htext := WritesTag.text s
      rwa [show Text.strip s = s from h] at htext
  | other => exact ⟨fun _ => trivial, fun _ => WritesTag.other⟩

/-- A plain tag finds the values that write the same, and any other finds none of those. -/
theorem finds_iff (t v : Raw) : (PlainTag t → (Finds t v ↔ SameTag t v)) ∧
    (¬PlainTag t → SameTag t v → ¬Finds t v) := by
  have hplain : SameTag t v → Finds t v → PlainTag t := by
    rintro ⟨s, ht, hv⟩ hfinds
    obtain rfl := hv.unique hfinds
    exact finds_self.mp ht
  refine ⟨fun h => ⟨fun hfinds => ⟨t.shown, finds_self.mpr h, hfinds⟩, ?_⟩,
    fun h hsame hfinds => h (hplain hsame hfinds)⟩
  rintro ⟨s, ht, hv⟩
  rw [Finds, (finds_self.mpr h).unique ht]
  exact hv

lemma tagged_shown {given : List Raw} :
    Tagged (given.map Raw.shown) v ↔ ∃ t ∈ given, Finds t v := by
  unfold Tagged Finds
  simp only [← tag?_eq_some, Labelling.tag?, Option.map_eq_some_iff, List.mem_map]
  constructor
  · rintro ⟨key, hkey, t, ht, hshown⟩
    exact ⟨t, ht, key, hkey, hshown.symm⟩
  · rintro ⟨t, ht, key, hkey, hshown⟩
    exact ⟨key, hkey, t, ht, hshown.symm⟩

end Forms

section Labels

variable {a : Assembler} {f : Frame} {name : String} {tags : List Raw}

/-- Configured tags and the rows of a frame: a row is kept as a positive one exactly if a positive tag
finds its value, and as a negative one exactly if a negative tag finds it and no positive one does. Of the
values that write the same as a tag it finds all if it is plain, and else none. -/
theorem configured_tags (h : Rectangular f) (htags : f.columns.lookup name = some tags)
    (positive negative : List Raw) (weight : Document) :
    (∀ t v, (PlainTag t → (Finds t v ↔ SameTag t v)) ∧ (¬PlainTag t → SameTag t v → ¬Finds t v)) ∧
    ∃ places : List Nat, places.Pairwise (· < ·) ∧
      (∀ i, i ∈ places ↔ ∃ v, tags[i]? = some v ∧
        ((∃ t ∈ positive, Finds t v) ∨ ∃ t ∈ negative, Finds t v)) ∧
      ((∃ d, ((Labelling.make (.text name) positive negative weight).run a f).2 = .ok d) ↔
        f.isShared name = false ∧ Named a ∧ Clear a f ∧ (∀ i ∈ places, RowUsable a (cellAt f i)) ∧
          Weighable (Labelling.make (.text name) positive negative weight) f places) ∧
      ∀ d, ((Labelling.make (.text name) positive negative weight).run a f).2 = .ok d →
        d.samples.length = places.length ∧
        ∀ i v, tags[i]? = some v →
          (KeptWith a f places d i 1 ↔ ∃ t ∈ positive, Finds t v) ∧
          (KeptWith a f places d i 0 ↔
            (∃ t ∈ negative, Finds t v) ∧ ¬∃ t ∈ positive, Finds t v) := by
  obtain ⟨l, hl⟩ : ∃ l, l = Labelling.make (.text name) positive negative weight := ⟨_, rfl⟩
  have htarget : l.target = .text name := by rw [hl]; rfl
  have hpositive : l.positive = positive.map Raw.shown := by rw [hl]; rfl
  have hnegative : l.negative = negative.map Raw.shown := by rw [hl]; rfl
  rw [← hl]
  refine ⟨finds_iff, keptPlaces (tags.map l.isValid), keptPlaces_increasing _, fun i => ?_,
    labelRun_ok_iff h htarget htags, fun d hrun => ⟨?_, fun i v hv => ?_⟩⟩
  · simp only [mem_keptPlaces_tags, hpositive, hnegative, tagged_shown]
  · exact (madeOfRow_of_run h htarget htags hrun).length_eq.symm
  · have hkept := keptWith_iff h htarget htags hrun hv
    rwa [hpositive, hnegative, tagged_shown, tagged_shown] at hkept

end Labels

section Sample

/-- Two records whose tags are doubles. -/
def doubleFrame : Frame :=
  ⟨2, [("clicked", [.real 1, .real 0])]⟩

/-- An assembler that reads no columns. -/
def blankAssembler : Assembler :=
  ⟨[], .zscale, [], [], []⟩

/-- An integral double as a positive tag does not find its own record, while an integer as a negative tag
finds the record of the double that it equals. -/
theorem configured_tags_doubles : ∃ places d,
    ((Labelling.make (.text "clicked") [.real 1] [.int 0] .null).run blankAssembler doubleFrame).2 =
      .ok d ∧
    ¬KeptWith blankAssembler doubleFrame places d 0 1 ∧
    KeptWith blankAssembler doubleFrame places d 1 0 := by
  have hrectangular : Rectangular doubleFrame := by
    unfold Rectangular
    decide
  have htags : doubleFrame.columns.lookup "clicked" = some [.real 1, .real 0] := rfl
  obtain ⟨-, places, -, -, hok, hkept⟩ := configured_tags (a := blankAssembler) hrectangular htags
    [.real 1] [.int 0] .null
  obtain ⟨d, hrun⟩ := hok.mpr
    ⟨by decide, nofun, nofun, fun _ _ => nofun, none, rfl, nofun⟩
  obtain ⟨-, hrows⟩ := hkept d hrun
  have hone : integer? 1 = some 1 := by decide +kernel
  have hzero : Labelling.tag? (.real 0) = some "0" := by decide +kernel
  have hown : ¬Finds (.real 1) (.real 1) := fun h =>
    (finds_self.mp h).2 1 (integer?_eq_some.mp hone)
  have hequal : Finds (.int 0) (.real 0) := tag?_eq_some.mp hzero
  refine ⟨places, d, hrun, fun h => ?_, (hrows 1 (.real 0) rfl).2.mpr ⟨⟨.int 0, by simp, hequal⟩, ?_⟩⟩
  · obtain ⟨t, ht, hfound⟩ := (hrows 0 (.real 1) rfl).1.mp h
    rw [List.mem_singleton.mp ht] at hfound
    exact hown hfound
  · rintro ⟨t, ht, hfound⟩
    rw [List.mem_singleton.mp ht] at hfound
    exact render_ne_toString 1 0 (hfound.unique hequal)

end Sample

end WideDeep.Proofs
