import Mathlib.Tactic

/-!
# Results and their failures

When steps in sequence succeed, and where an error of a sequence comes from.
-/

namespace WideDeep.Proofs

variable {ε α β γ : Type}

section Sequence

variable {r : Except ε β} {f : β → Except ε γ} {w : γ} {e : ε}

lemma ok_bind (v : β) (f : β → Except ε γ) : (Except.ok v >>= f) = f v := rfl

lemma bind_eq_ok : (r >>= f) = .ok w ↔ ∃ v, r = .ok v ∧ f v = .ok w := by
  cases r <;> simp [bind, Except.bind]

lemma bind_eq_error : (r >>= f) = .error e ↔ r = .error e ∨ ∃ v, r = .ok v ∧ f v = .error e := by
  cases r <;> simp [bind, Except.bind]

lemma map_eq_ok {g : β → γ} : r.map g = .ok w ↔ ∃ v, r = .ok v ∧ g v = w := by
  cases r <;> simp [Except.map]

lemma map_eq_error {g : β → γ} : r.map g = .error e ↔ r = .error e := by
  cases r <;> simp [Except.map]

lemma map_ok_iff {g : β → γ} : (∃ w, r.map g = .ok w) ↔ ∃ v, r = .ok v := by
  cases r <;> simp [Except.map]

lemma exists_ok_of_isOk (h : r.isOk = true) : ∃ v, r = .ok v := by
  cases r with
  | ok v => exact ⟨v, rfl⟩
  | error e => cases h

end Sequence

section Traversal

variable {f : α → Except ε β} {xs : List α} {e : ε}

/-- A traversal succeeds if each of its steps does. -/
theorem mapM_eq_ok {ys : List β} :
    xs.mapM f = .ok ys ↔ List.Forall₂ (fun x y => f x = .ok y) xs ys := by
  induction xs generalizing ys with
  | nil =>
    rw [List.mapM_nil, List.forall₂_nil_left_iff]
    exact ⟨fun h => (Except.ok.inj h).symm, fun h => congrArg Except.ok h.symm⟩
  | cons x xs ih =>
    rw [List.mapM_cons, bind_eq_ok]
    constructor
    · rintro ⟨y, hy, hrest⟩
      obtain ⟨zs, hzs, hjoin⟩ := bind_eq_ok.mp hrest
      cases hjoin
      exact List.Forall₂.cons hy (ih.mp hzs)
    · intro h
      cases h with
      | cons hy hrest => exact ⟨_, hy, bind_eq_ok.mpr ⟨_, ih.mpr hrest, rfl⟩⟩

lemma forall_of_forall₂ {R : α → β → Prop} {Q : β → Prop} {ys : List β} (h : List.Forall₂ R xs ys)
    (hq : ∀ x y, R x y → Q y) : ∀ y ∈ ys, Q y := by
  induction h with
  | nil => simp
  | cons hfirst _ ih =>
    rintro y hy
    rcases List.mem_cons.mp hy with rfl | hrest
    · exact hq _ _ hfirst
    · exact ih y hrest

lemma exists_getElem?_of_forall₂ {R : α → β → Prop} {ys : List β} (h : List.Forall₂ R xs ys) {i : Nat}
    {x : α} (hx : xs[i]? = some x) : ∃ y, ys[i]? = some y ∧ R x y := by
  induction h generalizing i with
  | nil => cases hx
  | cons hfirst _ ih =>
    cases i with
    | zero =>
      cases hx
      exact ⟨_, rfl, hfirst⟩
    | succ i => exact ih hx

lemma mapM_ok_of_forall {g : α → β} (h : ∀ x ∈ xs, f x = .ok (g x)) : xs.mapM f = .ok (xs.map g) := by
  rw [mapM_eq_ok, List.forall₂_map_right_iff, List.forall₂_same]
  exact h

lemma mapM_map_ok {δ : Type} {k : δ → α} {g : δ → β} {zs : List δ} (h : ∀ z, f (k z) = .ok (g z)) :
    (zs.map k).mapM f = .ok (zs.map g) := by
  rw [mapM_eq_ok, List.forall₂_map_left_iff, List.forall₂_map_right_iff, List.forall₂_same]
  exact fun z _ => h z

lemma mapM_step_ok {ys : List β} (h : xs.mapM f = .ok ys) : ∀ x ∈ xs, ∃ y, f x = .ok y := by
  have hsteps := mapM_eq_ok.mp h
  induction hsteps with
  | nil => simp
  | cons hfirst hrest ih =>
    intro x hx
    rcases List.mem_cons.mp hx with rfl | hmem
    · exact ⟨_, hfirst⟩
    · exact ih (mapM_eq_ok.mpr hrest) x hmem

/-- A traversal whose steps only ask for something of an item and else compute. -/
theorem mapM_eq_ok_map {g : α → β} {P : α → Prop} {ys : List β}
    (h : ∀ x y, f x = .ok y ↔ P x ∧ y = g x) :
    xs.mapM f = .ok ys ↔ (∀ x ∈ xs, P x) ∧ ys = xs.map g := by
  rw [mapM_eq_ok]
  constructor
  · intro hsteps
    induction hsteps with
    | nil => simp
    | cons hfirst _ ih =>
      obtain ⟨hx, rfl⟩ := (h _ _).mp hfirst
      obtain ⟨hrest, rfl⟩ := ih
      exact ⟨List.forall_mem_cons.mpr ⟨hx, hrest⟩, rfl⟩
  · rintro ⟨hall, rfl⟩
    rw [List.forall₂_map_right_iff, List.forall₂_same]
    exact fun x hx => (h x _).mpr ⟨hall x hx, rfl⟩

/-- The error of a traversal is that of one of its steps. -/
theorem mapM_error (h : xs.mapM f = .error e) : ∃ x ∈ xs, f x = .error e := by
  induction xs with
  | nil => cases h
  | cons x xs ih =>
    rw [List.mapM_cons] at h
    rcases bind_eq_error.mp h with hx | ⟨y, -, hrest⟩
    · exact ⟨x, List.mem_cons_self, hx⟩
    · rcases bind_eq_error.mp hrest with hxs | ⟨ys, -, hjoin⟩
      · obtain ⟨z, hz, hfail⟩ := ih hxs
        exact ⟨z, List.mem_cons_of_mem x hz, hfail⟩
      · cases hjoin

/-- A traversal of which no step fails succeeds. -/
lemma exists_mapM_ok (h : ∀ x ∈ xs, ∃ y, f x = .ok y) : ∃ ys, xs.mapM f = .ok ys := by
  cases hall : xs.mapM f with
  | ok ys => exact ⟨ys, rfl⟩
  | error e =>
    obtain ⟨x, hx, hfail⟩ := mapM_error hall
    obtain ⟨y, hy⟩ := h x hx
    cases hy.symm.trans hfail

/-- Traversals with equal steps are equal. -/
lemma mapM_congr {g : α → Except ε β} (h : ∀ x ∈ xs, f x = g x) : xs.mapM f = xs.mapM g := by
  induction xs with
  | nil => rfl
  | cons x xs ih =>
    rw [List.mapM_cons, List.mapM_cons, h x List.mem_cons_self,
      ih fun y hy => h y (List.mem_cons_of_mem x hy)]

/-- A traversal that gives options gives all values if each of its steps gives one. -/
lemma mapM_eq_some {g : α → Option β} {ys : List β} :
    xs.mapM g = some ys ↔ List.Forall₂ (fun x y => g x = some y) xs ys := by
  induction xs generalizing ys with
  | nil =>
    rw [List.mapM_nil, List.forall₂_nil_left_iff]
    exact ⟨fun h => (Option.some.inj h).symm, fun h => congrArg some h.symm⟩
  | cons x xs ih =>
    rw [List.mapM_cons]
    constructor
    · intro h
      obtain ⟨y, hy, h⟩ := Option.bind_eq_some_iff.mp h
      obtain ⟨zs, hzs, hjoin⟩ := Option.bind_eq_some_iff.mp h
      cases hjoin
      exact List.Forall₂.cons hy (ih.mp hzs)
    · intro h
      cases h with
      | cons hy hrest =>
        exact Option.bind_eq_some_iff.mpr
          ⟨_, hy, Option.bind_eq_some_iff.mpr ⟨_, ih.mpr hrest, rfl⟩⟩

lemma exists_mapM_some {g : α → Option β} (h : ∀ x ∈ xs, ∃ y, g x = some y) :
    ∃ ys, xs.mapM g = some ys := by
  simp only [mapM_eq_some]
  induction xs with
  | nil => exact ⟨[], List.Forall₂.nil⟩
  | cons x xs ih =>
    obtain ⟨⟨y, hy⟩, hrest⟩ := List.forall_mem_cons.mp h
    obtain ⟨ys, hys⟩ := ih hrest
    exact ⟨y :: ys, List.Forall₂.cons hy hys⟩

/-- What holds of all values that a traversal gives holds of what each of its steps gives. -/
lemma forall_mem_iff_of_mapM {g : α → Option β} {ys : List β} (h : xs.mapM g = some ys)
    {Q : β → Prop} : (∀ y ∈ ys, Q y) ↔ ∀ x ∈ xs, ∃ y, g x = some y ∧ Q y := by
  have hsteps := mapM_eq_some.mp h
  clear h
  induction hsteps with
  | nil => simp
  | cons hfirst _ ih =>
    rw [List.forall_mem_cons, List.forall_mem_cons]
    exact and_congr (by simp [hfirst]) ih

lemma forM_eq_ok {g : α → Except ε Unit} : xs.forM g = .ok () ↔ ∀ x ∈ xs, g x = .ok () := by
  induction xs with
  | nil => simp [pure, Except.pure]
  | cons x xs ih =>
    rw [List.forall_mem_cons, ← ih]
    constructor
    · intro h
      obtain ⟨_, hfirst, hrest⟩ := bind_eq_ok.mp h
      exact ⟨hfirst, hrest⟩
    · rintro ⟨hfirst, hrest⟩
      exact bind_eq_ok.mpr ⟨_, hfirst, hrest⟩

/-- Running the first step once more beforehand changes nothing. -/
lemma forM_head_twice (g : α → Except ε Unit) (x : α) (xs : List α) :
    (do [x].forM g
        (x :: xs).forM g) = (x :: xs).forM g := by
  change (g x >>= fun _ => pure ()) >>= (fun _ => g x >>= fun _ => xs.forM g) =
    g x >>= fun _ => xs.forM g
  cases hx : g x with
  | error e => rfl
  | ok u => rfl

lemma forM_error {g : α → Except ε Unit} (h : xs.forM g = .error e) : ∃ x ∈ xs, g x = .error e := by
  induction xs with
  | nil => cases h
  | cons x xs ih =>
    rcases bind_eq_error.mp h with hx | ⟨_, -, hrest⟩
    · exact ⟨x, List.mem_cons_self, hx⟩
    · obtain ⟨z, hz, hfail⟩ := ih hrest
      exact ⟨z, List.mem_cons_of_mem x hz, hfail⟩

end Traversal

section Keys

variable {κ : Type} {key : β → κ} {xs : List β}

variable [DecidableEq κ]

/-- Under distinct keys, every entry is found. -/
theorem lookup_of_mem {entries : List (κ × β)} (hnodup : (entries.map Prod.fst).Nodup) {k : κ} {v : β}
    (hmem : (k, v) ∈ entries) : entries.lookup k = some v := by
  induction entries with
  | nil => cases hmem
  | cons p rest ih =>
    rw [List.map_cons, List.nodup_cons] at hnodup
    rcases List.mem_cons.mp hmem with rfl | hrest
    · exact List.lookup_cons_self
    · have hother : (k == p.1) = false := by
        refine beq_eq_false_iff_ne.mpr fun heq => hnodup.1 ?_
        rw [← heq]
        exact List.mem_map_of_mem hrest
      rw [List.lookup_cons, hother]
      exact ih hnodup.2 hrest

/-- A look-up sees only the entries with its key. -/
lemma lookup_eq_filter (entries : List (κ × β)) (k : κ) :
    entries.lookup k = (entries.filter (·.1 == k)).head?.map Prod.snd := by
  induction entries with
  | nil => rfl
  | cons p rest ih =>
    rw [List.lookup_cons, List.filter_cons, Bool.beq_comm]
    cases p.1 == k with
    | true => rfl
    | false => exact ih

lemma find?_of_mem (hnodup : (xs.map key).Nodup) {x : β} (hmem : x ∈ xs) :
    xs.find? (fun y => key y == key x) = some x := by
  induction xs with
  | nil => cases hmem
  | cons y rest ih =>
    rw [List.map_cons, List.nodup_cons] at hnodup
    rcases List.mem_cons.mp hmem with rfl | hrest
    · exact List.find?_cons_of_pos (beq_self_eq_true _)
    · have hother : ¬(key y == key x) = true := by
        intro heq
        refine hnodup.1 ?_
        rw [beq_iff_eq.mp heq]
        exact List.mem_map_of_mem hrest
      rw [List.find?_cons_of_neg (p := fun y => key y == key x) hother]
      exact ih hnodup.2 hrest

end Keys

end WideDeep.Proofs
