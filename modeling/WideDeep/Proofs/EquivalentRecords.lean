import Mathlib.Tactic
import WideDeep.Proofs.AssembledFrames
import WideDeep.Proofs.BatchScores

/-!
# Records that score alike

A record is scored from what its columns make of the values under their names. Values that the columns
of a name cannot tell apart may stand for each other: gaps of any kind, texts that are no category,
synonyms of one label, and values that are no number.
-/

namespace WideDeep.Proofs
open Binary

variable {a : Assembler} {id : Int} {v w : Raw}

section Values

/-- No synonym of the column is the key of the value. -/
def Unseen (a : Assembler) (id : Int) (v : Raw) : Prop :=
  ∀ f, a.feature? id = some f → NoCategory f.stats v

/-- The labels of the column share no synonym, and one of them has the keys of both values. -/
def OneLabel (a : Assembler) (id : Int) (v w : Raw) : Prop :=
  ∀ f, a.feature? id = some f → Apart f.stats.labels ∧
    ∃ label ∈ f.stats.labels, ∃ s t, v.key? = some s ∧ w.key? = some t ∧
      s ∈ synonyms label ∧ t ∈ synonyms label

/-- Among labels that share no synonym, the one with a synonym is the last one that has it. -/
lemma lastWith_of_apart {labels : List String} (h : Apart labels) {i : Nat} {label s : String}
    (hlabel : labels[i]? = some label) (hs : s ∈ synonyms label) : LastWith labels s i := by
  constructor
  · exact ⟨label, hlabel, hs⟩
  · intro j other hij hother hshared
    obtain ⟨hi, rfl⟩ := List.getElem?_eq_some_iff.mp hlabel
    obtain ⟨hj, rfl⟩ := List.getElem?_eq_some_iff.mp hother
    exact List.pairwise_iff_getElem.mp h i j hi hj hij s hs hshared

/-- Synonyms of one label have one number. -/
lemma number_of_oneLabel {labels : List String} (h : Apart labels) {label s t : String}
    (hlabel : label ∈ labels) (hv : v.key? = some s) (hw : w.key? = some t)
    (hs : s ∈ synonyms label) (ht : t ∈ synonyms label) :
    (CategoryIndex.ofLabels labels).number v = (CategoryIndex.ofLabels labels).number w := by
  obtain ⟨i, hi⟩ := List.mem_iff_getElem?.mp hlabel
  have hfound : ∀ {u : Raw} {key : String}, u.key? = some key → key ∈ synonyms label →
      (CategoryIndex.ofLabels labels).number u = i := by
    intro u key hkey hmem
    have hget := get?_ofLabels.mpr (lastWith_of_apart h hi hmem)
    simp [CategoryIndex.number, CategoryIndex.find?, hkey, hget]
  rw [hfound hv hs, hfound hw ht]

lemma numberOf_of_oneLabel (h : OneLabel a id v w) : a.numberOf id v = a.numberOf id w := by
  unfold Assembler.numberOf
  cases hfeature : a.feature? id with
  | none => rfl
  | some f =>
    obtain ⟨hapart, label, hlabel, s, t, hv, hw, hs, ht⟩ := h f hfeature
    have hindex : f.index = CategoryIndex.ofLabels f.stats.labels := f.index_eq
    simp only [Feature.number, hindex, number_of_oneLabel hapart hlabel hv hw hs ht]

/-- A value that is no category has the number of missing values. -/
lemma numberOf_of_unseen (hv : Unseen a id v) (hw : Unseen a id w) :
    a.numberOf id v = a.numberOf id w := by
  unfold Assembler.numberOf
  cases hfeature : a.feature? id with
  | none => rfl
  | some f =>
    have hnone : ∀ {u : Raw}, NoCategory f.stats u → f.index.find? u = none := by
      intro u hu
      rw [f.index_eq]
      exact find?_of_noCategory f.stats hu
    simp only [Feature.number, CategoryIndex.number, hnone (hv f hfeature), hnone (hw f hfeature)]

/-- Gaps are neither numbers nor categories. -/
lemma alike_of_missing (hv : v.isMissing = true) (hw : w.isMissing = true) : Alike v w := by
  have hgap : ∀ {u : Raw}, u.isMissing = true → u.number? = .ok none ∧ u.key? = none := by
    intro u hu
    cases u with
    | missing => exact ⟨rfl, rfl⟩
    | real x =>
      have hnan : isNaN x = true := hu
      simp [Raw.number?, Raw.number, Raw.key?, hnan]
    | bool b => cases hu
    | int n => cases hu
    | text s => cases hu
    | other => cases hu
  constructor
  · rw [(hgap hv).1, (hgap hw).1]
  · rw [(hgap hv).2, (hgap hw).2]

/-- A score depends on the value as a number alone. -/
lemma normalized_of_scored (hscored : a.norm.method = .score) (h : v.number? = w.number?) :
    a.normalized id v = a.normalized id w := by
  unfold Assembler.normalized ColumnStats.normalize
  cases a.feature? id with
  | none => rfl
  | some f => simp only [hscored, h]

end Values

/-- The columns, of some that are read, that records hold under a name. -/
def ReadUnder (a : Assembler) (ids : List Int) (name : String) (id : Int) : Prop :=
  id ∈ ids ∧ a.keyOf id = .ok (some name)

/-- Two values that may stand for each other under a name: the same one; any two, if no column is
read under the name; two gaps; and, under a name of indexed columns alone, two values that are no
category or two synonyms of one label, or, under a name of scored columns alone, two values that are
no number. -/
inductive Interchangeable (a : Assembler) (name : String) : Raw → Raw → Prop
  | same (v : Raw) : Interchangeable a name v v
  | unread {v w : Raw} (none : ∀ id, ¬ReadUnder a (a.dense ++ a.embed ++ a.wide) name id) :
      Interchangeable a name v w
  | missing {v w : Raw} (left : v.isMissing = true) (right : w.isMissing = true) :
      Interchangeable a name v w
  | unseen {v w : Raw} (indexed : ∀ id, ¬ReadUnder a a.dense name id)
      (left : ∀ id, ReadUnder a (a.embed ++ a.wide) name id → Unseen a id v)
      (right : ∀ id, ReadUnder a (a.embed ++ a.wide) name id → Unseen a id w) :
      Interchangeable a name v w
  | synonyms {v w : Raw} (indexed : ∀ id, ¬ReadUnder a a.dense name id)
      (both : ∀ id, ReadUnder a (a.embed ++ a.wide) name id → OneLabel a id v w) :
      Interchangeable a name v w
  | unreadable {v w : Raw} (scored : a.norm.method = .score)
      (dense : ∀ id, ¬ReadUnder a (a.embed ++ a.wide) name id) (left : NoNumber v)
      (right : NoNumber w) : Interchangeable a name v w

namespace Interchangeable

variable {name : String}

lemma normalized_eq (h : Interchangeable a name v w) (hread : ReadUnder a a.dense name id) :
    a.normalized id v = a.normalized id w := by
  cases h with
  | same => rfl
  | unread none => exact absurd ⟨mem_used (Or.inl hread.1), hread.2⟩ (none id)
  | missing left right => exact normalized_congr (alike_of_missing left right)
  | unseen indexed => exact absurd hread (indexed id)
  | synonyms indexed => exact absurd hread (indexed id)
  | unreadable scored _ left right =>
    apply normalized_of_scored scored
    rw [number?_eq_none.mpr left, number?_eq_none.mpr right]

lemma numberOf_eq (h : Interchangeable a name v w)
    (hread : ReadUnder a (a.embed ++ a.wide) name id) : a.numberOf id v = a.numberOf id w := by
  cases h with
  | same => rfl
  | unread none =>
    refine absurd ⟨?_, hread.2⟩ (none id)
    rw [List.append_assoc]
    exact List.mem_append_right _ hread.1
  | missing left right => exact numberOf_congr (alike_of_missing left right)
  | unseen _ left right => exact numberOf_of_unseen (left id hread) (right id hread)
  | synonyms _ both => exact numberOf_of_oneLabel (both id hread)
  | unreadable _ dense => exact absurd hread (dense id)

end Interchangeable

section Inputs

variable {r s : RawRecord}

/-- Records with such values under every name have the same inputs. -/
theorem recordInputs_of_interchangeable
    (h : ∀ name, Interchangeable a name (r.value (some name)) (s.value (some name))) :
    a.recordInputs r = a.recordInputs s := by
  have hdense : a.dense.mapM (a.denseInput r) = a.dense.mapM (a.denseInput s) := by
    apply mapM_congr
    intro id hid
    unfold Assembler.denseInput
    cases hkey : a.keyOf id with
    | error e => rfl
    | ok key =>
      cases key with
      | none => rfl
      | some name => exact (h name).normalized_eq ⟨hid, hkey⟩
  have hindex : ∀ id ∈ a.embed ++ a.wide, a.indexInput r id = a.indexInput s id := by
    intro id hid
    unfold Assembler.indexInput
    cases hkey : a.keyOf id with
    | error e => rfl
    | ok key =>
      cases key with
      | none => rfl
      | some name => simp only [ok_bind, (h name).numberOf_eq ⟨hid, hkey⟩]
  have hembed : a.embed.mapM (a.indexInput r) = a.embed.mapM (a.indexInput s) :=
    mapM_congr fun id hid => hindex id (List.mem_append_left _ hid)
  have hwide : a.wide.mapM (a.indexInput r) = a.wide.mapM (a.indexInput s) :=
    mapM_congr fun id hid => hindex id (List.mem_append_right _ hid)
  unfold Assembler.recordInputs
  rw [hdense, hembed, hwide]

end Inputs

section Scores

variable {p : Predictor} {stored : StoredModel} {simple : Bool} {r s : RawRecord}

lemma known_of_check {known used : List Int} (h : Assembler.checkKnown known used = .ok ()) :
    ∀ id ∈ used, id ∈ known := by
  intro id hid
  by_contra hunknown
  have hmem : id ∈ (used.filter fun id => !known.contains id).eraseDups := by
    simp [hid, hunknown]
  have hsome : (used.filter fun id => !known.contains id).eraseDups.isEmpty = false := by
    simpa using List.ne_nil_of_mem hmem
  unfold Assembler.checkKnown at h
  simp only [hsome] at h
  cases h

/-- The feature of a stored column has a name that can be looked up. -/
lemma key_ofStats (simple : Bool) (c : ColumnStats) :
    ∃ key, (Feature.ofStats simple c).key? = .ok key := by
  unfold Feature.ofStats Feature.make Feature.key?
  cases c.name with
  | none => exact ⟨none, rfl⟩
  | some name => exact ⟨some _, rfl⟩

/-- A predictor of a stored model finds every column that the model reads, under a name that can be
looked up. -/
lemma complete_of_stored (h : Predictor.ofStored stored simple = .ok p) : Complete p.assembler := by
  obtain ⟨a, ha, hp⟩ := bind_eq_ok.mp h
  obtain ⟨_, hknown, hmake⟩ := bind_eq_ok.mp ha
  cases hp
  cases hmake
  intro id hid
  obtain ⟨c, hc, rfl⟩ := List.mem_map.mp (known_of_check hknown id hid)
  have hsome : ((stored.columns.map (Feature.ofStats simple)).find?
      (·.stats.number == c.number)).isSome = true :=
    List.find?_isSome.mpr ⟨_, List.mem_map_of_mem hc, beq_self_eq_true _⟩
  obtain ⟨f, hf⟩ := Option.isSome_iff_exists.mp hsome
  obtain ⟨d, -, rfl⟩ := List.mem_map.mp (List.mem_of_find?_eq_some hf)
  obtain ⟨key, hkey⟩ := key_ofStats simple d
  exact ⟨_, key, hf, hkey⟩

/-- A record without an integer beyond the doubles is scored by a predictor of a stored model whose
tables have rows. -/
lemma exists_score (h : Predictor.ofStored stored simple = .ok p)
    (hcoherent : Coherent p.model.layout) (hfilled : Filled p.model.layout)
    (haddressable : Addressable p.assembler) (hr : ∀ e ∈ r, ¬BeyondDoubles e.2) :
    ∃ z, p.score r = .ok [z] := by
  have hreads := readsColumns_of_stored h
  have hcomplete := complete_of_stored h
  have hvalue : ∀ key, ¬BeyondDoubles (r.value key) := by
    intro key
    unfold RawRecord.value
    cases hfound : key.bind fun n => r.lookup n with
    | none =>
      rintro ⟨n, hn, -⟩
      cases hn
    | some v =>
      obtain ⟨name, -, hlookup⟩ := Option.bind_eq_some_iff.mp hfound
      obtain ⟨before, after, hsplit, -⟩ := List.lookup_eq_some_iff.mp hlookup
      apply hr (name, v)
      simp [hsplit]
  have husable : Usable p.assembler r := fun id hid =>
    normalized_of_complete hcomplete hid (hvalue _)
  have haccepts : Accepts p.model p.assembler := by
    have hlength : (inputsOf p.assembler fun _ => .missing).dense.length =
        p.model.layout.dense.length := by
      rw [← hreads.dense]
      exact List.length_map _
    have hcount := (resultCount_single hcoherent hlength
      (Assembler.sparse p.assembler.embed (inputsOf p.assembler fun _ => .missing).embed)
      (Assembler.sparse p.assembler.wide (inputsOf p.assembler fun _ => .missing).wide)).1 hfilled
    rw [single_inputsOf hreads] at hcount
    exact ⟨1, hcount⟩
  exact ⟨_, (score_eq_ok hreads haddressable).mpr
    ⟨⟨named_of_complete hcomplete, husable⟩, haccepts, rfl⟩⟩

/-- Records that differ under each name in values that may stand for each other only have the same
score, or the same error. If the model is stored and its tables have rows, then a record without an
integer beyond the doubles does have a score. -/
theorem score_interchangeable (p : Predictor) (r s : RawRecord)
    (h : ∀ name, Interchangeable p.assembler name (r.value (some name)) (s.value (some name))) :
    p.score r = p.score s ∧
    ∀ stored simple, Predictor.ofStored stored simple = .ok p → Coherent p.model.layout →
      Filled p.model.layout → Addressable p.assembler → (∀ e ∈ r, ¬BeyondDoubles e.2) →
      ∃ z, p.score r = .ok [z] ∧ p.score s = .ok [z] := by
  have hsame : p.score r = p.score s := by
    unfold Predictor.score
    rw [recordInputs_of_interchangeable h]
  constructor
  · exact hsame
  · intro stored simple hstored hcoherent hfilled haddressable hr
    obtain ⟨z, hz⟩ := exists_score hstored hcoherent hfilled haddressable hr
    exact ⟨z, hz, hsame ▸ hz⟩

end Scores

section Sample

/-- A column that takes no bins. -/
def plainColumn (number : Int) (name : String) (kind : ColumnKind) (labels : List String) :
    ColumnStats where
  number
  name := some name
  kind
  mean := 10
  stddev := 2
  cutoff := 4
  boundaries := []
  labels
  countEvidence := []
  weightedEvidence := []
  evidenceMean := 0
  evidenceStddev := 1
  weightedMean := 0
  weightedStddev := 1
  countEvidence_fits := rfl
  weightedEvidence_fits := rfl

/-- Two scored columns, one that is embedded and wide and has a label of two synonyms, and a wide
one. -/
def orchardColumns : List ColumnStats :=
  [plainColumn 0 "age" .numerical [], plainColumn 1 "height" .numerical [],
    plainColumn 2 "fruit" .categorical ["pear@^quince", "plum"],
    plainColumn 3 "soil" .categorical ["clay"]]

def orchardLayout : Layout :=
  ⟨[0, 1], [2], [2, 3], [⟨2, 3, 1⟩], [⟨2, 3, 1⟩, ⟨3, 2, 1⟩], 3, [], 0⟩

def orchardStored : StoredModel :=
  ⟨countedModel orchardLayout, orchardColumns, .zscale, 1⟩

def orchardPredictor : Predictor :=
  ⟨orchardStored.model, ⟨orchardColumns.map (Feature.ofStats false), .zscale, [0, 1], [2], [2, 3]⟩, 1⟩

/-- The names under which the columns are read. -/
lemma name_of_readUnder {ids : List Int} {name : String} {id : Int}
    (h : ReadUnder orchardPredictor.assembler ids name id) (hids : ids ⊆ [0, 1, 2, 3]) :
    (id, name) ∈ [(0, "age"), (1, "height"), (2, "fruit"), (3, "soil")] := by
  obtain ⟨hid, hkey⟩ := h
  have hcases := hids hid
  simp only [List.mem_cons, List.not_mem_nil, or_false] at hcases
  rcases hcases with rfl | rfl | rfl | rfl <;> cases hkey <;> decide

/-- A tree with notes on it, and one of the same kind without. -/
def orchardRecords : RawRecord × RawRecord :=
  ([("age", .text "n/a"), ("height", .missing), ("fruit", .text "pear"), ("soil", .text "sand"),
      ("note", .int 7)],
    [("height", .real nan), ("fruit", .text "quince"), ("soil", .int 12)])

lemma interchangeable_orchard (name : String) : Interchangeable orchardPredictor.assembler name
    (orchardRecords.1.value (some name)) (orchardRecords.2.value (some name)) := by
  have hread : ∀ {ids : List Int} {id : Int}, ids ⊆ [0, 1, 2, 3] →
      ReadUnder orchardPredictor.assembler ids name id →
      (id, name) ∈ [(0, "age"), (1, "height"), (2, "fruit"), (3, "soil")] :=
    fun hids h => name_of_readUnder h hids
  have hdense : ∀ {id : Int}, ReadUnder orchardPredictor.assembler [0, 1] name id →
      id = 0 ∨ id = 1 :=
    fun h => by simpa using h.1
  have hsparse : ∀ {id : Int}, ReadUnder orchardPredictor.assembler [2, 2, 3] name id →
      id = 2 ∨ id = 3 :=
    fun h => by simpa using h.1
  by_cases hname : name ∈ ["age", "height", "fruit", "soil", "note"]
  · simp only [List.mem_cons, List.not_mem_nil, or_false] at hname
    rcases hname with rfl | rfl | rfl | rfl | rfl
    · refine .unreadable rfl (fun id h => ?_) noNumber_unreadable trivial
      have hid := hread (by decide) h
      rcases hsparse h with rfl | rfl <;> simp at hid
    · exact .missing rfl (by decide)
    · refine .synonyms (fun id h => ?_) fun id h f hf => ?_
      · have hid := hread (by decide) h
        rcases hdense h with rfl | rfl <;> simp at hid
      · have hid := hread (by decide) h
        rcases hsparse h with rfl | rfl
        · cases hf
          refine ⟨?_, "pear@^quince", by decide, "pear", "quince", rfl, rfl, ?_⟩
          · unfold Apart
            decide +kernel
          · decide +kernel
        · simp at hid
    · refine .unseen (fun id h => ?_) (fun id h f hf => ?_) fun id h f hf => ?_
      · have hid := hread (by decide) h
        rcases hdense h with rfl | rfl <;> simp at hid
      · have hid := hread (by decide) h
        rcases hsparse h with rfl | rfl
        · simp at hid
        · cases hf
          rintro key ⟨⟩
          decide +kernel
      · have hid := hread (by decide) h
        rcases hsparse h with rfl | rfl
        · simp at hid
        · cases hf
          rintro key ⟨⟩
          decide +kernel
    · refine .unread fun id h => ?_
      have hid := hread (by decide) h
      simp at hid
  · have hgap : ∀ r : RawRecord, (∀ e ∈ r, e.1 ∈ ["age", "height", "fruit", "soil", "note"]) →
        r.value (some name) = .missing := by
      intro r hr
      have hnone : r.lookup name = none :=
        List.lookup_eq_none_iff.mpr fun e he => bne_iff_ne.mpr fun heq => hname (heq ▸ hr e he)
      simp [RawRecord.value, hnone]
    rw [hgap orchardRecords.1 (by decide), hgap orchardRecords.2 (by decide)]
    exact .same _

/-- The two trees have the same score. They differ in a text that is no number beside an absent age, in
two kinds of gaps, in two synonyms, in two unknown soils and in a note. A plum tree has another
logit. -/
theorem score_interchangeable_orchard :
    (∀ name, Interchangeable orchardPredictor.assembler name (orchardRecords.1.value (some name))
      (orchardRecords.2.value (some name))) ∧
    (∃ z, orchardPredictor.score orchardRecords.1 = .ok [z] ∧
      orchardPredictor.score orchardRecords.2 = .ok [z]) ∧
    ∃ x y, orchardPredictor.assembler.recordInputs orchardRecords.1 = .ok x ∧
      orchardPredictor.assembler.recordInputs [("fruit", .text "plum")] = .ok y ∧
      orchardPredictor.model.logit x ≠ orchardPredictor.model.logit y := by
  have hstored : Predictor.ofStored orchardStored false = .ok orchardPredictor := rfl
  have hcoherent : Coherent orchardPredictor.model.layout := by
    constructor <;> decide
  have hfilled : Filled orchardPredictor.model.layout := by
    unfold Filled
    decide
  have haddressable : Addressable orchardPredictor.assembler := by
    unfold Addressable
    decide +kernel
  have hwithin : ∀ e ∈ orchardRecords.1, ¬BeyondDoubles e.2 := by
    rintro e he ⟨n, hn, hlarge⟩
    simp only [orchardRecords, List.mem_cons, List.not_mem_nil, or_false] at he
    rcases he with rfl | rfl | rfl | rfl | rfl <;> cases hn
    revert hlarge
    decide +kernel
  refine ⟨interchangeable_orchard, ?_, _, _, rfl, rfl, by decide +kernel⟩
  exact (score_interchangeable orchardPredictor orchardRecords.1 orchardRecords.2
    interchangeable_orchard).2 orchardStored false hstored hcoherent hfilled haddressable hwithin

end Sample

end WideDeep.Proofs
