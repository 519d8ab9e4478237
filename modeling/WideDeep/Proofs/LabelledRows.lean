import Mathlib.Tactic
import WideDeep.Proofs.FrameRows
import WideDeep.Proofs.RecordWeights

/-!
# Labelled rows

Labelling keeps the rows of a frame whose tag is a positive or a negative one, in their order. Inputs,
target and weight of a record all come from the row that it was made of.
-/

namespace WideDeep.Proofs
open Binary

section Tags

variable {l : Labelling} {tags : List Raw} {v : Raw} {i : Nat}

/-- A value whose key without blanks at its ends is among the given tags. -/
def Tagged (given : List String) (v : Raw) : Prop :=
  ∃ key, v.key? = some key ∧ Text.strip key ∈ given

lemma tag?_any (given : List String) : (Labelling.tag? v).any given.contains = true ↔ Tagged given v := by
  unfold Labelling.tag? Tagged
  cases v.key? with
  | none => simp
  | some key => simp

lemma isPositive_iff : l.isPositive v = true ↔ Tagged l.positive v :=
  tag?_any l.positive

lemma isValid_iff : l.isValid v = true ↔ Tagged l.positive v ∨ Tagged l.negative v := by
  unfold Labelling.isValid
  rw [Bool.or_eq_true, isPositive_iff, tag?_any]

lemma mem_keptPlaces_tags : i ∈ keptPlaces (tags.map l.isValid) ↔
    ∃ v, tags[i]? = some v ∧ (Tagged l.positive v ∨ Tagged l.negative v) := by
  rw [mem_keptPlaces, List.getElem?_map, Option.map_eq_some_iff]
  simp only [isValid_iff]

/-- The targets are those of the kept rows. -/
lemma targets_eq_map : l.targets tags = (keptPlaces (tags.map l.isValid)).map fun i =>
    if l.isPositive (tags.getD i .missing) then 1 else 0 := by
  have hkept : tags.filter l.isValid =
      (keptPlaces (tags.map l.isValid)).map (tags.getD · .missing) := by
    have hpairs : tags.zip (tags.map l.isValid) = tags.map fun v => (v, l.isValid v) := by
      conv_lhs => rw [← List.map_id tags, List.map_map, List.zip_map']
      rfl
    rw [← keptOf_eq_map (List.length_map _).symm, keptOf, hpairs, List.filter_map, List.map_map]
    exact (List.map_id _).symm
  unfold Labelling.targets
  rw [hkept, List.map_map]
  rfl

end Tags

section Weights

variable {l : Labelling} {f : Frame} {keep : List Bool} {weights : List Float32}

/-- The column that gives weights, if there is one. -/
def weightColumn? (l : Labelling) (f : Frame) : Except Error (Option (List Raw)) :=
  if l.weight.isAbsent then .ok none else Labelling.columnOf? f l.weight

/-- A frame in which the weights of the records at some places can be computed: the column that gives
them can be read, and has no integer there that rounds to no double. -/
def Weighable (l : Labelling) (f : Frame) (places : List Nat) : Prop :=
  ∃ column, weightColumn? l f = .ok column ∧
    ∀ values, column = some values → ∀ i ∈ places, ¬BeyondDoubles (values.getD i .missing)

/-- The weight of a record that is kept with others: one if no column gives weights, and else what its
value in that column weighs. -/
def RowWeighs (l : Labelling) (f : Frame) (places : List Nat) (i : Nat) (w : Float32) : Prop :=
  ∃ column, weightColumn? l f = .ok column ∧ (column = none → w = 1) ∧
    ∀ values, column = some values →
      Weighs (MachineWords (places.map (values.getD · .missing))) (values.getD i .missing) w

lemma columnOf?_filter (name : Document) : Labelling.columnOf? (f.filter keep) name =
    (Labelling.columnOf? f name).map (Option.map (keptOf keep)) := by
  unfold Labelling.columnOf?
  cases name with
  | text s =>
    dsimp only
    rw [isShared_filter, lookup_filter]
    split <;> rfl
  | _ => rfl

lemma length_weightColumn (h : Rectangular f) {values : List Raw}
    (hcolumn : weightColumn? l f = .ok (some values)) : values.length = f.size := by
  unfold weightColumn? Labelling.columnOf? at hcolumn
  split at hcolumn
  · cases hcolumn
  · split at hcolumn
    · split at hcolumn
      · cases hcolumn
      · exact length_of_lookup h (Except.ok.inj hcolumn)
    · cases hcolumn
    · cases hcolumn
    · cases hcolumn

/-- The weights of the records that are kept, by the column of the whole frame that gives them. -/
lemma weights_filter (h : Rectangular f) (hkeep : keep.length = f.size) :
    l.weights (f.filter keep) = weightColumn? l f >>= fun column =>
      match column with
      | none => .ok (List.replicate (keptPlaces keep).length 1)
      | some values => weightsOf ((keptPlaces keep).map (values.getD · .missing)) := by
  have hlength {values : List Raw} (hcolumn : weightColumn? l f = .ok (some values)) :
      values.length = keep.length := (length_weightColumn h hcolumn).trans hkeep.symm
  unfold Labelling.weights
  unfold weightColumn? at hlength ⊢
  rw [size_filter]
  dsimp only
  by_cases habsent : l.weight.isAbsent = true
  · rw [if_pos habsent, if_pos habsent]
    rfl
  · rw [if_neg habsent] at hlength ⊢
    rw [if_neg habsent, columnOf?_filter]
    cases hcolumn : Labelling.columnOf? f l.weight with
    | error e => rfl
    | ok column =>
      cases column with
      | none => rfl
      | some values => exact congrArg weightsOf (keptOf_eq_map (hlength hcolumn) .missing)

/-- The weights of the records that are kept can be computed exactly if the frame is weighable there. -/
lemma weights_ok_iff (h : Rectangular f) (hkeep : keep.length = f.size) :
    (∃ ws, l.weights (f.filter keep) = .ok ws) ↔ Weighable l f (keptPlaces keep) := by
  rw [weights_filter h hkeep]
  unfold Weighable
  cases weightColumn? l f with
  | error e =>
    constructor
    · rintro ⟨ws, hws⟩
      cases hws
    · rintro ⟨column, hcolumn, -⟩
      cases hcolumn
  | ok column =>
    rw [ok_bind]
    cases column with
    | none => exact ⟨fun _ => ⟨none, rfl, nofun⟩, fun _ => ⟨_, rfl⟩⟩
    | some values =>
      dsimp only
      rw [weightsOf_ok_iff, List.forall_mem_map]
      constructor
      · intro hall
        refine ⟨some values, rfl, fun other hother => ?_⟩
        cases hother
        exact hall
      · rintro ⟨column, hcolumn, hall⟩
        cases hcolumn
        exact hall values rfl

/-- What the records that are kept weigh. -/
lemma rowWeighs_of_weights (h : Rectangular f) (hkeep : keep.length = f.size)
    (hweights : l.weights (f.filter keep) = .ok weights) :
    List.Forall₂ (RowWeighs l f (keptPlaces keep)) (keptPlaces keep) weights := by
  rw [weights_filter h hkeep] at hweights
  obtain ⟨column, hcolumn, hweights⟩ := bind_eq_ok.mp hweights
  cases column with
  | none =>
    cases hweights
    refine List.forall₂_iff_get.mpr ⟨List.length_replicate.symm, fun j hj hj' => ?_⟩
    exact ⟨none, hcolumn, fun _ => by simp, nofun⟩
  | some values =>
    have hrows := List.forall₂_map_left_iff.mp (weighs_of_weightsOf hweights)
    refine hrows.imp fun i w hw => ⟨some values, hcolumn, nofun, ?_⟩
    rintro other hother
    cases hother
    exact hw

end Weights

section Runs

variable {l : Labelling} {a : Assembler} {f : Frame} {name : String} {tags : List Raw}
  {rows : List (Inputs Float32)} {d : Dataset Float32}

/-- What a labelling makes of a frame with tags. -/
lemma labelRun_eq_ok (htarget : l.target = .text name) (htags : f.columns.lookup name = some tags) :
    (l.run a f).2 = .ok d ↔ f.isShared name = false ∧ ∃ rows weights,
      a.frameInputs (f.filter (tags.map l.isValid)) = .ok rows ∧
      l.weights (f.filter (tags.map l.isValid)) = .ok weights ∧
      d = { denseWidth := a.dense.length, embedWidth := a.embed.length, wideWidth := a.wide.length
            samples := (rows.zip ((l.targets tags).zip weights)).map fun p => ⟨p.1, p.2.1, p.2.2⟩ } := by
  unfold Labelling.run Labelling.columnOf?
  rw [htarget]
  dsimp only
  cases hshared : f.isShared name with
  | true => simp
  | false =>
    rw [if_neg Bool.false_ne_true, htags]
    dsimp only
    constructor
    · intro h
      obtain ⟨rows, hrows, h⟩ := bind_eq_ok.mp h
      obtain ⟨weights, hweights, h⟩ := bind_eq_ok.mp h
      exact ⟨rfl, rows, weights, hrows, hweights, (Except.ok.inj h).symm⟩
    · rintro ⟨-, rows, weights, hrows, hweights, rfl⟩
      rw [hrows, ok_bind, hweights]
      rfl

/-- A frame with tags is labelled and normalized exactly if no name that is read is shared and the
records with a valid tag can be normalized and weighed. -/
theorem labelRun_ok_iff (h : Rectangular f) (htarget : l.target = .text name)
    (htags : f.columns.lookup name = some tags) :
    (∃ d, (l.run a f).2 = .ok d) ↔ f.isShared name = false ∧ Named a ∧ Clear a f ∧
      (∀ i ∈ keptPlaces (tags.map l.isValid), RowUsable a (cellAt f i)) ∧
      Weighable l f (keptPlaces (tags.map l.isValid)) := by
  have hkeep : (tags.map l.isValid).length = f.size := by
    rw [List.length_map, length_of_lookup h htags]
  rw [← weights_ok_iff h hkeep]
  simp only [labelRun_eq_ok htarget htags, frameInputs_filter h hkeep]
  constructor
  · rintro ⟨d, hsingle, rows, weights, ⟨hnamed, hclear, husable, -⟩, hweights, -⟩
    exact ⟨hsingle, hnamed, hclear, husable, weights, hweights⟩
  · rintro ⟨hsingle, hnamed, hclear, husable, weights, hweights⟩
    exact ⟨_, hsingle, _, weights, ⟨hnamed, hclear, husable, rfl⟩, hweights, rfl⟩

/-- A record that is made of a row, with one as the target of a positive tag and zero as that of any
other. -/
structure MadeOfRow (l : Labelling) (a : Assembler) (f : Frame) (tags : List Raw) (places : List Nat)
    (i : Nat) (s : Sample Float32) : Prop where
  inputs : s.inputs = inputsOf a (cellAt f i)
  positive : Tagged l.positive (tags.getD i .missing) → s.target = 1
  other : ¬Tagged l.positive (tags.getD i .missing) → s.target = 0
  weight : RowWeighs l f places i s.weight

/-- Each record of a labelled frame is made of the kept row at its place. -/
theorem madeOfRow_of_run (h : Rectangular f) (htarget : l.target = .text name)
    (htags : f.columns.lookup name = some tags) (hrun : (l.run a f).2 = .ok d) :
    List.Forall₂ (MadeOfRow l a f tags (keptPlaces (tags.map l.isValid)))
      (keptPlaces (tags.map l.isValid)) d.samples := by
  have hkeep : (tags.map l.isValid).length = f.size := by
    rw [List.length_map, length_of_lookup h htags]
  obtain ⟨-, rows, weights, hrows, hweights, rfl⟩ := (labelRun_eq_ok htarget htags).mp hrun
  obtain ⟨-, -, -, rfl⟩ := (frameInputs_filter h hkeep).mp hrows
  obtain ⟨hlength, hweights⟩ := List.forall₂_iff_get.mp (rowWeighs_of_weights h hkeep hweights)
  rw [targets_eq_map]
  refine List.forall₂_iff_get.mpr ⟨by simp [hlength], fun j hj hj' => ?_⟩
  simp only [List.get_eq_getElem, List.getElem_map, List.getElem_zip] at hweights ⊢
  refine ⟨rfl, fun hpositive => if_pos (isPositive_iff.mpr hpositive),
    fun hother => if_neg fun hpositive => hother (isPositive_iff.mp hpositive), ?_⟩
  exact hweights j hj (hlength ▸ hj)

/-- A row that is kept with a target: the record at its place is made of it. -/
def KeptWith (a : Assembler) (f : Frame) (places : List Nat) (d : Dataset Float32) (i : Nat)
    (target : Float32) : Prop :=
  ∃ (j : Nat) (s : Sample Float32), places[j]? = some i ∧ d.samples[j]? = some s ∧
    s.inputs = inputsOf a (cellAt f i) ∧ s.target = target

/-- Which rows are kept as positive and which as negative ones. -/
theorem keptWith_iff (h : Rectangular f) (htarget : l.target = .text name)
    (htags : f.columns.lookup name = some tags) (hrun : (l.run a f).2 = .ok d) {i : Nat} {v : Raw}
    (hv : tags[i]? = some v) :
    (KeptWith a f (keptPlaces (tags.map l.isValid)) d i 1 ↔ Tagged l.positive v) ∧
    (KeptWith a f (keptPlaces (tags.map l.isValid)) d i 0 ↔
      Tagged l.negative v ∧ ¬Tagged l.positive v) := by
  have hmade := madeOfRow_of_run h htarget htags hrun
  have hat : tags.getD i .missing = v := by rw [List.getD_eq_getElem?_getD, hv, Option.getD_some]
  have hplace : i ∈ keptPlaces (tags.map l.isValid) ↔ Tagged l.positive v ∨ Tagged l.negative v := by
    rw [mem_keptPlaces_tags, hv]
    simp
  -- the tag of a row alone decides whether it is kept, and with which target
  have hkept : ∀ x, KeptWith a f (keptPlaces (tags.map l.isValid)) d i x ↔
      (Tagged l.positive v ∨ Tagged l.negative v) ∧
        (Tagged l.positive v → x = 1) ∧ (¬Tagged l.positive v → x = 0) := by
    intro x
    rw [← hplace]
    constructor
    · rintro ⟨j, s, hj, hs, -, rfl⟩
      obtain ⟨s', hs', hrow⟩ := exists_getElem?_of_forall₂ hmade hj
      cases hs.symm.trans hs'
      exact ⟨List.mem_of_getElem? hj, hat ▸ hrow.positive, hat ▸ hrow.other⟩
    · rintro ⟨hi, hone, hzero⟩
      obtain ⟨j, hj⟩ := List.mem_iff_getElem?.mp hi
      obtain ⟨s, hs, hrow⟩ := exists_getElem?_of_forall₂ hmade hj
      refine ⟨j, s, hj, hs, hrow.inputs, ?_⟩
      by_cases hpositive : Tagged l.positive v
      · rw [hone hpositive, hrow.positive (hat ▸ hpositive)]
      · rw [hzero hpositive, hrow.other (hat ▸ hpositive)]
  have hdistinct : (1 : Float32) ≠ 0 := by decide +kernel
  rw [hkept, hkept]
  by_cases hpositive : Tagged l.positive v
  · simp [hpositive, hdistinct.symm]
  · simp [hpositive, hdistinct]

/-- A record with the inputs of the row at its place, with one as its target if its tag is a positive
one and else with zero, and with the weight of its row. -/
structure RecordAt (l : Labelling) (f : Frame) (rows : List (Inputs Float32)) (tags : List Raw)
    (places : List Nat) (i : Nat) (s : Sample Float32) : Prop where
  inputs : rows[i]? = some s.inputs
  target : ∃ v, tags[i]? = some v ∧ (Tagged l.positive v ∧ s.target = 1 ∨
    ¬Tagged l.positive v ∧ Tagged l.negative v ∧ s.target = 0)
  weight : RowWeighs l f places i s.weight

/-- Labelling keeps the rows with a positive or a negative tag, each once and in their order, and each
record has the inputs of its row in the whole frame, its target and its weight. It gives records exactly
if no other column shares the name of the tags and the rows that are kept can be weighed. -/
theorem labelled_rows (h : Rectangular f) (htarget : l.target = .text name)
    (htags : f.columns.lookup name = some tags) (hrows : a.frameInputs f = .ok rows) :
    ∃ places : List Nat, places.Pairwise (· < ·) ∧
      (∀ i, i ∈ places ↔ ∃ v, tags[i]? = some v ∧ (Tagged l.positive v ∨ Tagged l.negative v)) ∧
      ((∃ d, (l.run a f).2 = .ok d) ↔ f.isShared name = false ∧ Weighable l f places) ∧
      ∀ d, (l.run a f).2 = .ok d → List.Forall₂ (RecordAt l f rows tags places) places d.samples := by
  have hlength : tags.length = f.size := length_of_lookup h htags
  obtain ⟨hnamed, hclear, husable, rfl⟩ := (frameInputs_eq_rows h).mp hrows
  have hrow : ∀ i ∈ keptPlaces (tags.map l.isValid), i < f.size := fun i hi => by
    simpa [hlength] using lt_of_mem_keptPlaces hi
  refine ⟨keptPlaces (tags.map l.isValid), keptPlaces_increasing _, fun i => mem_keptPlaces_tags, ?_,
    fun d hrun => ?_⟩
  · rw [labelRun_ok_iff h htarget htags]
    have hkept : ∀ i ∈ keptPlaces (tags.map l.isValid), RowUsable a (cellAt f i) := fun i hi =>
      husable _ (List.mem_map_of_mem (List.mem_range.mpr (hrow i hi)))
    exact ⟨fun hall => ⟨hall.1, hall.2.2.2.2⟩, fun hall => ⟨hall.1, hnamed, hclear, hkept, hall.2⟩⟩
  · have hmade := madeOfRow_of_run h htarget htags hrun
    refine ((List.forall₂_and_left _ _).mpr ⟨fun i hi => hi, hmade⟩).imp fun i s ⟨hi, hs⟩ => ?_
    obtain ⟨v, hv, hvalid⟩ := mem_keptPlaces_tags.mp hi
    have hat : tags.getD i .missing = v := by rw [List.getD_eq_getElem?_getD, hv, Option.getD_some]
    refine ⟨?_, ⟨v, hv, ?_⟩, hs.weight⟩
    · rw [hs.inputs, List.getElem?_map, rowsOf, List.getElem?_map, List.getElem?_range (hrow i hi)]
      rfl
    · by_cases hpositive : Tagged l.positive v
      · exact Or.inl ⟨hpositive, hs.positive (hat ▸ hpositive)⟩
      · exact Or.inr ⟨hpositive, hvalid.resolve_left hpositive, hs.other (hat ▸ hpositive)⟩

end Runs

section Sample

def ageAssembler : Assembler :=
  ⟨[Feature.make (.text "age") ageColumn], .zscale, [0], [], []⟩

def clickLabelling : Labelling :=
  ⟨.text "clicked", ["1"], ["0"], .text "w"⟩

def clickTags : List Raw :=
  [.int 1, .text "x", .text " 0"]

/-- Three records with weights, of which the second has no valid tag. -/
def clickFrame (weights : List Raw) : Frame :=
  ⟨3, [("age", [.int 12, .text "old", .missing]), ("clicked", clickTags), ("w", weights)]⟩

/-- The second weight rounds to no double. -/
def looseWeights : List Raw :=
  [.int 2, .int (10 ^ 309), .missing]

/-- The first weight rounds to no double. -/
def brokenWeights : List Raw :=
  [.int (10 ^ 309), .int 2, .missing]

lemma frameInputs_clicks : (ageAssembler.frameInputs (clickFrame looseWeights)).isOk = true ∧
    (ageAssembler.frameInputs (clickFrame brokenWeights)).isOk = true := by
  decide +kernel

lemma weighable_clicks {weights : List Raw} {places : List Nat} : Weighable clickLabelling
    (clickFrame weights) places ↔ ∀ i ∈ places, ¬BeyondDoubles (weights.getD i .missing) := by
  have hcolumn : weightColumn? clickLabelling (clickFrame weights) = .ok (some weights) := rfl
  unfold Weighable
  rw [hcolumn]
  simp

/-- An integer that rounds to no double may stand beside an invalid tag, but is no weight of a record
that is kept. -/
theorem labelled_rows_clicks :
    (∃ d, (clickLabelling.run ageAssembler (clickFrame looseWeights)).2 = .ok d) ∧
    ¬∃ d, (clickLabelling.run ageAssembler (clickFrame brokenWeights)).2 = .ok d := by
  have hrectangular : Rectangular (clickFrame looseWeights) ∧ Rectangular (clickFrame brokenWeights) := by
    unfold Rectangular
    decide
  have htarget : clickLabelling.target = .text "clicked" := rfl
  have htags : ∀ weights, (clickFrame weights).columns.lookup "clicked" = some clickTags := fun _ => rfl
  obtain ⟨looseRows, hloose⟩ := exists_ok_of_isOk frameInputs_clicks.1
  obtain ⟨brokenRows, hbroken⟩ := exists_ok_of_isOk frameInputs_clicks.2
  have hfirst : clickLabelling.isValid (.int 1) = true := by decide +kernel
  have hsecond : clickLabelling.isValid (.text "x") = false := by decide +kernel
  have hsmall : ¬leastUnrounded ≤ 2 := by decide +kernel
  constructor
  · obtain ⟨places, -, hplaces, hok, -⟩ := labelled_rows hrectangular.1 htarget (htags _) hloose
    refine hok.mpr ⟨by decide, weighable_clicks.mpr fun i hi => ?_⟩
    obtain ⟨v, hv, hvalid⟩ := (hplaces i).mp hi
    rintro ⟨n, hn, hlarge⟩
    match i with
    | 0 =>
      cases hn
      exact hsmall hlarge
    | 1 =>
      cases hv
      rw [isValid_iff.mpr hvalid] at hsecond
      cases hsecond
    | 2 => cases hn
    | _ + 3 => cases hv
  · obtain ⟨places, -, hplaces, hok, -⟩ := labelled_rows hrectangular.2 htarget (htags _) hbroken
    intro hrun
    refine weighable_clicks.mp (hok.mp hrun).2 0 ?_ beyondDoubles_large
    exact (hplaces 0).mpr ⟨.int 1, rfl, isValid_iff.mp hfirst⟩

end Sample

end WideDeep.Proofs
