import Mathlib.Tactic
import WideDeep.Category

/-!
# Categories

The index of labels gives each synonym the position of the last label that has it. It holds every
synonym once, so the number that stands for missing values is the number of distinct synonyms.
-/

namespace WideDeep.Proofs

section Synonyms

/-- The synonyms of labels, one list for all. -/
def allSynonyms (labels : List String) : List String :=
  labels.flatMap synonyms

lemma pieceChars_ne_nil (cs : List Char) : pieceChars cs ≠ [] := by
  fun_induction pieceChars cs with
  | case1 => simp
  | case2 c => simp
  | case3 a b rest hmark ih => simp
  | case4 a b rest hmark piece pieces hrest ih => simp
  | case5 a b rest hmark hrest ih => simp

lemma one_le_synonyms (label : String) : 1 ≤ (synonyms label).length := by
  have hne := pieceChars_ne_nil label.toList
  unfold synonyms
  rw [List.length_map]
  exact List.length_pos_iff.mpr hne

lemma length_le_allSynonyms (labels : List String) : labels.length ≤ (allSynonyms labels).length := by
  induction labels with
  | nil => exact le_rfl
  | cons label rest ih =>
    have hone := one_le_synonyms label
    unfold allSynonyms at ih ⊢
    rw [List.flatMap_cons, List.length_append, List.length_cons]
    omega

end Synonyms

section Entries

variable {index : CategoryIndex} {s key : String} {n i : Nat}

@[simp] lemma get?_put (index : CategoryIndex) (s key : String) (n : Nat) :
    (index.put s n).get? key = if key = s then some n else index.get? key := by
  unfold CategoryIndex.get?
  induction index with
  | nil =>
    rw [CategoryIndex.put, List.lookup_cons]
    by_cases h : key = s
    · rw [beq_iff_eq.mpr h, if_pos h]
    · rw [beq_eq_false_iff_ne.mpr h, if_neg h]
  | cons p rest ih =>
    obtain ⟨t, m⟩ := p
    by_cases hput : t = s
    · subst hput
      rw [CategoryIndex.put, if_pos (beq_self_eq_true t), List.lookup_cons, List.lookup_cons]
      by_cases h : key = t
      · rw [beq_iff_eq.mpr h, if_pos h]
      · rw [beq_eq_false_iff_ne.mpr h, if_neg h]
    · have hother : ¬(t == s) = true := by rwa [beq_iff_eq]
      rw [CategoryIndex.put, if_neg hother, List.lookup_cons, List.lookup_cons]
      by_cases h : key = t
      · subst h
        rw [beq_self_eq_true, if_neg hput]
      · rw [beq_eq_false_iff_ne.mpr h]
        exact ih

/-- Putting a synonym appends it if it is new. -/
lemma keys_put (index : CategoryIndex) (s : String) (n : Nat) :
    (index.put s n).map Prod.fst =
      if s ∈ index.map Prod.fst then index.map Prod.fst else index.map Prod.fst ++ [s] := by
  induction index with
  | nil => rfl
  | cons p rest ih =>
    obtain ⟨t, m⟩ := p
    unfold CategoryIndex.put
    by_cases hput : t = s
    · simp [hput]
    · have hother : (t == s) = false := beq_eq_false_iff_ne.mpr hput
      have hne : s ≠ t := fun h => hput h.symm
      simp only [hother, Bool.false_eq_true, if_false, List.map_cons, ih, List.mem_cons, hne, false_or]
      split <;> rfl

lemma get?_foldl_put (names : List String) (index : CategoryIndex) (key : String) (n : Nat) :
    (names.foldl (fun i s => CategoryIndex.put i s n) index).get? key =
      if key ∈ names then some n else index.get? key := by
  induction names generalizing index with
  | nil => simp
  | cons s rest ih =>
    rw [List.foldl_cons, ih, get?_put]
    by_cases hrest : key ∈ rest
    · simp [hrest]
    · by_cases h : key = s <;> simp [hrest, h]

end Entries

/-- The last label that has a key among its synonyms stands at this position. -/
structure LastWith (labels : List String) (key : String) (i : Nat) : Prop where
  has : ∃ label, labels[i]? = some label ∧ key ∈ synonyms label
  later : ∀ j label, i < j → labels[j]? = some label → key ∉ synonyms label

section Positions

variable {labels : List String} {key : String} {i : Nat}

lemma LastWith.lt_length (h : LastWith labels key i) : i < labels.length := by
  obtain ⟨label, hlabel, -⟩ := h.has
  exact (List.getElem?_eq_some_iff.mp hlabel).1

lemma lastWith_cons_zero {label : String} :
    LastWith (label :: labels) key 0 ↔
      key ∈ synonyms label ∧ ∀ other ∈ labels, key ∉ synonyms other := by
  constructor
  · intro h
    obtain ⟨first, hfirst, hkey⟩ := h.has
    cases hfirst
    refine ⟨hkey, fun other hother => ?_⟩
    obtain ⟨j, hj⟩ := List.mem_iff_getElem?.mp hother
    exact h.later (j + 1) other (Nat.succ_pos j) (by rwa [List.getElem?_cons_succ])
  · rintro ⟨hkey, hothers⟩
    refine ⟨⟨label, rfl, hkey⟩, fun j other hj hother => ?_⟩
    obtain ⟨k, rfl⟩ := Nat.exists_eq_succ_of_ne_zero hj.ne'
    rw [List.getElem?_cons_succ] at hother
    exact hothers other (List.mem_of_getElem? hother)

lemma lastWith_cons_succ {label : String} :
    LastWith (label :: labels) key (i + 1) ↔ LastWith labels key i := by
  constructor
  · intro h
    exact ⟨h.has, fun j other hj hother =>
      h.later (j + 1) other (Nat.succ_lt_succ hj) (by rwa [List.getElem?_cons_succ])⟩
  · intro h
    refine ⟨h.has, fun j other hj hother => ?_⟩
    obtain ⟨k, rfl⟩ := Nat.exists_eq_succ_of_ne_zero (Nat.ne_of_gt (by omega : 0 < j))
    rw [List.getElem?_cons_succ] at hother
    exact h.later k other (by omega) hother

/-- A synonym is sent to the last of the added labels that has it, and else to where it was sent
before. -/
lemma get?_extend (labels : List String) (index : CategoryIndex) (position : Nat) :
    (index.extend position labels).get? key = some i ↔
      (∃ k, i = position + k ∧ LastWith labels key k) ∨
        (∀ label ∈ labels, key ∉ synonyms label) ∧ index.get? key = some i := by
  induction labels generalizing index position with
  | nil =>
    have hnone : ∀ k, ¬LastWith [] key k := fun k h => absurd h.lt_length (Nat.not_lt_zero k)
    simp [CategoryIndex.extend, hnone]
  | cons label rest ih =>
    rw [CategoryIndex.extend, ih, get?_foldl_put]
    constructor
    · rintro (⟨k, rfl, hlast⟩ | ⟨hrest, hfound⟩)
      · exact Or.inl ⟨k + 1, by omega, lastWith_cons_succ.mpr hlast⟩
      · by_cases hkey : key ∈ synonyms label
        · rw [if_pos hkey] at hfound
          cases hfound
          exact Or.inl ⟨0, rfl, lastWith_cons_zero.mpr ⟨hkey, hrest⟩⟩
        · rw [if_neg hkey] at hfound
          exact Or.inr ⟨List.forall_mem_cons.mpr ⟨hkey, hrest⟩, hfound⟩
    · rintro (⟨k, rfl, hlast⟩ | ⟨hall, hfound⟩)
      · cases k with
        | zero =>
          obtain ⟨hkey, hrest⟩ := lastWith_cons_zero.mp hlast
          exact Or.inr ⟨hrest, by rw [if_pos hkey, Nat.add_zero]⟩
        | succ k => exact Or.inl ⟨k, by omega, lastWith_cons_succ.mp hlast⟩
      · obtain ⟨hkey, hrest⟩ := List.forall_mem_cons.mp hall
        exact Or.inr ⟨hrest, by rwa [if_neg hkey]⟩

/-- The index of labels sends a synonym to the last label that has it. -/
theorem get?_ofLabels :
    (CategoryIndex.ofLabels labels).get? key = some i ↔ LastWith labels key i := by
  unfold CategoryIndex.ofLabels
  rw [get?_extend]
  simp [CategoryIndex.get?]

/-- Positions in the index are positions of labels. -/
lemma find?_lt_length {v : Raw} (h : (CategoryIndex.ofLabels labels).find? v = some i) :
    i < labels.length := by
  obtain ⟨key, -, hget⟩ := Option.bind_eq_some_iff.mp h
  exact (get?_ofLabels.mp hget).lt_length

end Positions

section Counting

lemma keys_foldl_put (names : List String) {index : CategoryIndex} (n : Nat)
    (h : (index.map Prod.fst).Nodup) :
    ((names.foldl (fun i s => CategoryIndex.put i s n) index).map Prod.fst).Nodup ∧
      ∀ key, key ∈ (names.foldl (fun i s => CategoryIndex.put i s n) index).map Prod.fst ↔
        key ∈ index.map Prod.fst ∨ key ∈ names := by
  induction names generalizing index with
  | nil => exact ⟨h, by simp⟩
  | cons s rest ih =>
    have hkeys := keys_put index s n
    by_cases hs : s ∈ index.map Prod.fst
    · rw [if_pos hs] at hkeys
      have hsame : ((index.put s n).map Prod.fst).Nodup := by rwa [hkeys]
      obtain ⟨hnodup, hmem⟩ := ih hsame
      refine ⟨hnodup, fun key => ?_⟩
      rw [List.foldl_cons, hmem, hkeys, List.mem_cons]
      constructor
      · tauto
      · rintro (hold | rfl | hrest)
        · exact Or.inl hold
        · exact Or.inl hs
        · exact Or.inr hrest
    · rw [if_neg hs] at hkeys
      have hnew : ((index.put s n).map Prod.fst).Nodup := by
        rw [hkeys]
        exact List.nodup_append_comm.mp (List.nodup_cons.mpr ⟨hs, h⟩)
      obtain ⟨hnodup, hmem⟩ := ih hnew
      refine ⟨hnodup, fun key => ?_⟩
      rw [List.foldl_cons, hmem, hkeys, List.mem_append, List.mem_singleton, List.mem_cons, or_assoc]

/-- The keys of an index of labels are their synonyms, each of them once. -/
theorem keys_ofLabels (labels : List String) :
    ((CategoryIndex.ofLabels labels).map Prod.fst).Perm (allSynonyms labels).dedup := by
  suffices hextend : ∀ (labels : List String) (index : CategoryIndex) (position : Nat),
      (index.map Prod.fst).Nodup →
      ((index.extend position labels).map Prod.fst).Nodup ∧
        ∀ key, key ∈ (index.extend position labels).map Prod.fst ↔
          key ∈ index.map Prod.fst ∨ key ∈ allSynonyms labels by
    obtain ⟨hnodup, hmem⟩ := hextend labels [] 0 List.nodup_nil
    refine (List.perm_ext_iff_of_nodup hnodup (List.nodup_dedup _)).mpr fun key => ?_
    rw [List.mem_dedup, hmem]
    simp
  intro labels
  induction labels with
  | nil => exact fun index position h => ⟨h, by simp [CategoryIndex.extend, allSynonyms]⟩
  | cons label rest ih =>
    intro index position h
    obtain ⟨hnodup, hmem⟩ := keys_foldl_put (synonyms label) position h
    obtain ⟨hnodup', hmem'⟩ := ih _ (position + 1) hnodup
    refine ⟨hnodup', fun key => ?_⟩
    rw [CategoryIndex.extend, hmem', hmem, or_assoc]
    unfold allSynonyms
    rw [List.flatMap_cons, List.mem_append]

/-- The number of missing values is the number of distinct synonyms. -/
theorem missing_ofLabels (labels : List String) :
    (CategoryIndex.ofLabels labels).missing = (allSynonyms labels).dedup.length := by
  have hlength := (keys_ofLabels labels).length_eq
  rwa [List.length_map] at hlength

/-- No two labels share a synonym. -/
def Apart (labels : List String) : Prop :=
  labels.Pairwise fun a b => ∀ s ∈ synonyms a, s ∉ synonyms b

/-- Labels that share no synonym have at least as many synonyms as they are. -/
theorem length_le_of_apart {labels : List String} (h : Apart labels) :
    labels.length ≤ (allSynonyms labels).dedup.length := by
  induction labels with
  | nil => exact Nat.zero_le _
  | cons label rest ih =>
    obtain ⟨hfirst, hrest⟩ := List.pairwise_cons.mp h
    obtain ⟨s, hs⟩ := List.exists_mem_of_length_pos (one_le_synonyms label)
    have hnew : s ∉ allSynonyms rest := by
      intro hmem
      obtain ⟨other, hother, hshared⟩ := List.mem_flatMap.mp hmem
      exact hfirst other hother s hs hshared
    have hsub : (s :: (allSynonyms rest).dedup).Subperm (allSynonyms (label :: rest)).dedup := by
      refine List.subperm_of_subset ?_ fun key hkey => ?_
      · exact List.nodup_cons.mpr ⟨by rwa [List.mem_dedup], List.nodup_dedup _⟩
      · rw [List.mem_dedup]
        unfold allSynonyms at hkey ⊢
        rw [List.flatMap_cons, List.mem_append]
        rcases List.mem_cons.mp hkey with rfl | hold
        · exact Or.inl hs
        · exact Or.inr (List.mem_dedup.mp hold)
    have hlength := hsub.length_le
    have hmore := ih hrest
    rw [List.length_cons] at hlength ⊢
    omega

end Counting

end WideDeep.Proofs
