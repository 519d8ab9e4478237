import Mathlib.Tactic

/-!
# Lists with one item for each key

Items are put one after the other into a list, each in place of an earlier one of its key or behind
all others. Of the items with one key the last one is kept, at the place of the first one.
-/

namespace WideDeep.Proofs

variable {β κ : Type}

/-- An item that is the last one of a list with its key. -/
def LastOfKey (key : β → κ) (items : List β) (y : β) : Prop :=
  ∃ before after, items = before ++ y :: after ∧ key y ∉ after.map key

lemma lastOfKey_cons {key : β → κ} {x y : β} {rest : List β} :
    LastOfKey key (x :: rest) y ↔ LastOfKey key rest y ∨ (y = x ∧ key y ∉ rest.map key) := by
  constructor
  · rintro ⟨before, after, hsplit, hlast⟩
    cases before with
    | nil =>
      rw [List.nil_append, List.cons.injEq] at hsplit
      exact Or.inr ⟨hsplit.1.symm, hsplit.2 ▸ hlast⟩
    | cons z before =>
      rw [List.cons_append, List.cons.injEq] at hsplit
      exact Or.inl ⟨before, after, hsplit.2, hlast⟩
  · rintro (⟨before, after, rfl, hlast⟩ | ⟨rfl, hlast⟩)
    · exact ⟨x :: before, after, rfl, hlast⟩
    · exact ⟨[], rest, rfl, hlast⟩

/-- Putting an item in place of an earlier one of its key, or behind all others. -/
structure Puts (key : β → κ) (put : List β → β → List β) : Prop where
  empty : ∀ x, put [] x = [x]
  same : ∀ y rest x, key y = key x → put (y :: rest) x = x :: rest
  other : ∀ y rest x, key y ≠ key x → put (y :: rest) x = y :: put rest x

namespace Puts

variable {key : β → κ} {put : List β → β → List β} {before added : List β} {x y : β}

lemma of_new (h : Puts key put) (hnew : key x ∉ before.map key) :
    put before x = before ++ [x] := by
  induction before with
  | nil => exact h.empty x
  | cons y rest ih =>
    rw [List.map_cons, List.mem_cons, not_or] at hnew
    rw [h.other y rest x fun heq => hnew.1 heq.symm, ih hnew.2]
    rfl

lemma keys_of_mem (h : Puts key put) (hold : key x ∈ before.map key) :
    (put before x).map key = before.map key := by
  induction before with
  | nil => cases hold
  | cons y rest ih =>
    by_cases hkey : key y = key x
    · rw [h.same y rest x hkey, List.map_cons, List.map_cons, hkey]
    · rw [List.map_cons, List.mem_cons] at hold
      have hrest : key x ∈ rest.map key := hold.resolve_left fun heq => hkey heq.symm
      rw [h.other y rest x hkey, List.map_cons, List.map_cons, ih hrest]

lemma length_le (h : Puts key put) (before : List β) (x : β) : (put before x).length ≤ before.length + 1 := by
  induction before with
  | nil => rw [h.empty, List.length_singleton, List.length_nil]
  | cons y rest ih =>
    by_cases hkey : key y = key x
    · rw [h.same y rest x hkey, List.length_cons, List.length_cons]
      omega
    · rw [h.other y rest x hkey, List.length_cons, List.length_cons]
      omega

lemma mem (h : Puts key put) (hy : y ∈ put before x) : y = x ∨ y ∈ before := by
  induction before with
  | nil =>
    rw [h.empty] at hy
    exact Or.inl (List.mem_singleton.mp hy)
  | cons z rest ih =>
    by_cases hkey : key z = key x
    · rw [h.same z rest x hkey] at hy
      exact (List.mem_cons.mp hy).imp id (List.mem_cons_of_mem z)
    · rw [h.other z rest x hkey] at hy
      rcases List.mem_cons.mp hy with rfl | hrest
      · exact Or.inr List.mem_cons_self
      · exact (ih hrest).imp id (List.mem_cons_of_mem z)

/-- The keys of a list, and whether one more has been put. -/
theorem mem_keys (h : Puts key put) (k : κ) :
    k ∈ (put before x).map key ↔ k ∈ before.map key ∨ k = key x := by
  by_cases hold : key x ∈ before.map key
  · rw [h.keys_of_mem hold]
    refine ⟨Or.inl, fun hk => hk.elim id ?_⟩
    rintro rfl
    exact hold
  · rw [h.of_new hold]
    simp

lemma nodup (h : Puts key put) (hbefore : (before.map key).Nodup) :
    ((put before x).map key).Nodup := by
  by_cases hold : key x ∈ before.map key
  · rwa [h.keys_of_mem hold]
  · rw [h.of_new hold, List.map_append]
    exact List.nodup_append_comm.mp (List.nodup_cons.mpr ⟨hold, hbefore⟩)

/-- No key is left twice, however many items have been put. -/
theorem foldl_nodup (h : Puts key put) (added : List β) (hbefore : (before.map key).Nodup) :
    ((added.foldl put before).map key).Nodup := by
  induction added generalizing before with
  | nil => exact hbefore
  | cons x rest ih => exact ih (h.nodup hbefore)

/-- What is in a list of distinct keys into which an item has been put. -/
lemma mem_iff (h : Puts key put) (hnodup : (before.map key).Nodup) :
    y ∈ put before x ↔ y = x ∨ (y ∈ before ∧ key y ≠ key x) := by
  induction before with
  | nil => simp [h.empty]
  | cons z rest ih =>
    rw [List.map_cons, List.nodup_cons] at hnodup
    by_cases hkey : key z = key x
    · have hothers : ∀ w ∈ rest, key w ≠ key x := by
        intro w hw heq
        exact hnodup.1 (hkey.trans heq.symm ▸ List.mem_map_of_mem hw)
      rw [h.same z rest x hkey, List.mem_cons, List.mem_cons]
      constructor
      · exact Or.imp_right fun hy => ⟨Or.inr hy, hothers y hy⟩
      · rintro (rfl | ⟨rfl | hy, hne⟩)
        · exact Or.inl rfl
        · exact absurd hkey hne
        · exact Or.inr hy
    · rw [h.other z rest x hkey, List.mem_cons, List.mem_cons, ih hnodup.2]
      constructor
      · rintro (rfl | rfl | hy)
        · exact Or.inr ⟨Or.inl rfl, hkey⟩
        · exact Or.inl rfl
        · exact Or.inr ⟨Or.inr hy.1, hy.2⟩
      · rintro (rfl | ⟨rfl | hy, hne⟩)
        · exact Or.inr (Or.inl rfl)
        · exact Or.inl rfl
        · exact Or.inr (Or.inr ⟨hy, hne⟩)

/-- Of the items that are put one after the other, the last ones of their keys are left, and of those
that were there before, the ones whose keys are not put again. -/
theorem mem_foldl_iff (h : Puts key put) (hnodup : (before.map key).Nodup) :
    y ∈ added.foldl put before ↔ LastOfKey key added y ∨ (y ∈ before ∧ key y ∉ added.map key) := by
  induction added generalizing before with
  | nil => simp [LastOfKey]
  | cons x rest ih =>
    rw [List.foldl_cons, ih (h.nodup hnodup), h.mem_iff hnodup, lastOfKey_cons, List.map_cons,
      List.mem_cons, not_or]
    tauto

lemma length_foldl_le (h : Puts key put) (before added : List β) :
    (added.foldl put before).length ≤ before.length + added.length := by
  induction added generalizing before with
  | nil => exact le_rfl
  | cons x rest ih =>
    have hrest := ih (put before x)
    have hput := h.length_le before x
    rw [List.foldl_cons, List.length_cons]
    omega

lemma mem_foldl (h : Puts key put) (hy : y ∈ added.foldl put before) : y ∈ before ∨ y ∈ added := by
  induction added generalizing before with
  | nil => exact Or.inl hy
  | cons x rest ih =>
    rcases ih hy with hput | hrest
    · rcases h.mem hput with rfl | hbefore
      · exact Or.inr List.mem_cons_self
      · exact Or.inl hbefore
    · exact Or.inr (List.mem_cons_of_mem x hrest)

/-- Every key that has been put is left. -/
theorem mem_keys_foldl (h : Puts key put) (k : κ) :
    k ∈ (added.foldl put before).map key ↔ k ∈ before.map key ∨ k ∈ added.map key := by
  induction added generalizing before with
  | nil => simp
  | cons x rest ih => rw [List.foldl_cons, ih, h.mem_keys, List.map_cons, List.mem_cons, or_assoc]

/-- Items with new and distinct keys are all appended. -/
theorem foldl_append (h : Puts key put) (hnodup : ((before ++ added).map key).Nodup) :
    added.foldl put before = before ++ added := by
  induction added generalizing before with
  | nil => rw [List.foldl_nil, List.append_nil]
  | cons x rest ih =>
    have hsplit : before ++ x :: rest = before ++ [x] ++ rest := by
      rw [List.append_assoc, List.singleton_append]
    have hnew : key x ∉ before.map key := by
      rw [List.map_append, List.map_cons] at hnodup
      intro hmem
      exact List.disjoint_of_nodup_append hnodup hmem List.mem_cons_self
    rw [List.foldl_cons, h.of_new hnew, hsplit]
    rw [hsplit] at hnodup
    exact ih hnodup

/-- Items with distinct keys are all kept. -/
lemma foldl_of_nodup (h : Puts key put) (hnodup : (added.map key).Nodup) :
    added.foldl put [] = added :=
  h.foldl_append hnodup

end Puts

end WideDeep.Proofs
