import Mathlib.Tactic
import WideDeep.Model.Gradient
import WideDeep.Proofs.ExactSums

/-!
# Sums of tables

Rows and tables of numbers are added place by place. A fold of additions splits where its list does,
and so does a table to which rows are added at places. Each place of such a table has the sum of the
numbers that fall on it.
-/

namespace WideDeep.Proofs
open WideDeep.Gradient

/-- An operation that adds up lists from a zero, in any order and grouping. -/
structure Adds {β : Type} (op : β → β → β) (zero : β) : Prop where
  assoc : ∀ x y z, op (op x y) z = op x (op y z)
  comm : ∀ x y, op x y = op y x
  zero : op zero zero = zero

namespace Adds

variable {β : Type} {op : β → β → β} {zero : β}

lemma foldl_of_fixed (h : Adds op zero) {start : β} (hstart : op start zero = start) (xs : List β) :
    xs.foldl op start = op start (xs.foldl op zero) := by
  induction xs generalizing start with
  | nil => exact hstart.symm
  | cons x rest ih =>
    have hfixed : ∀ y, op y zero = y → op (op y x) zero = op y x := fun y hy => by
      rw [h.assoc, h.comm x, ← h.assoc, hy]
    calc (x :: rest).foldl op start = op (op start x) (rest.foldl op zero) :=
          ih (hfixed start hstart)
      _ = op start (op (op zero x) (rest.foldl op zero)) := by
          rw [← h.assoc start, ← h.assoc start, hstart]
      _ = op start ((x :: rest).foldl op zero) := by
          rw [List.foldl_cons, ih (hfixed zero h.zero)]

/-- A fold of additions splits where its list does. -/
theorem foldl_append (h : Adds op zero) (xs ys : List β) :
    (xs ++ ys).foldl op zero = op (xs.foldl op zero) (ys.foldl op zero) := by
  have hfixed : op (xs.foldl op zero) zero = xs.foldl op zero := by
    rw [h.comm, ← h.foldl_of_fixed h.zero]
  rw [List.foldl_append, h.foldl_of_fixed hfixed]

/-- Addition place by place in lists of a length. -/
theorem zipWith (h : Adds op zero) (n : Nat) :
    Adds (List.zipWith op) (List.replicate n zero) where
  assoc := fun xs ys zs => by
    induction xs generalizing ys zs with
    | nil => rfl
    | cons x xs ih =>
      cases ys with
      | nil => rfl
      | cons y ys =>
        cases zs with
        | nil => rfl
        | cons z zs => simp only [List.zipWith_cons_cons, h.assoc, ih]
  comm := fun xs ys => List.zipWith_comm_of_comm h.comm
  zero := by rw [List.zipWith_replicate, min_self, h.zero]

end Adds

section Rows

variable {α : Type} [Scalar α] {n : Nat} {xs ys us vs : List α}

lemma length_add (h : xs.length = ys.length) : (add xs ys).length = xs.length := by
  unfold add
  rw [List.length_zipWith, h, min_self]

lemma add_append (h : xs.length = us.length) : add (xs ++ ys) (us ++ vs) = add xs us ++ add ys vs :=
  List.zipWith_append h

variable [ExactSum α]

lemma adds_numbers : Adds (· + ·) (0 : α) :=
  ⟨ExactSum.add_assoc, ExactSum.add_comm, ExactSum.zero_add 0⟩

lemma adds_rows (n : Nat) : Adds add (List.replicate n (0 : α)) :=
  adds_numbers.zipWith n

lemma adds_tables (rows width : Nat) :
    Adds (List.zipWith add) (List.replicate rows (List.replicate width (0 : α))) :=
  (adds_rows width).zipWith rows

end Rows

/-- A table of so many rows of one width. -/
structure IsTable {α : Type} (rows width : Nat) (t : List (List α)) : Prop where
  rows : t.length = rows
  width : ∀ r ∈ t, r.length = width

section Tables

variable {α : Type} {rows width : Nat} {t u : List (List α)}

lemma IsTable.length_flatten (h : IsTable rows width t) : t.flatten.length = rows * width := by
  have hwidths : t.map List.length = List.replicate rows width := by
    rw [← h.rows, ← List.map_const']
    exact List.map_congr_left h.width
  rw [List.length_flatten, hwidths, List.sum_replicate, smul_eq_mul]

variable [Scalar α]

lemma isTable_zeros (rows width : Nat) :
    IsTable rows width (List.replicate rows (List.replicate width (0 : α))) where
  rows := List.length_replicate
  width := fun r hr => by rw [List.eq_of_mem_replicate hr, List.length_replicate]

lemma flatten_zeros (rows width : Nat) :
    (List.replicate rows (List.replicate width (0 : α))).flatten = List.replicate (rows * width) 0 :=
  List.flatten_replicate_replicate

lemma IsTable.add (ht : IsTable rows width t) (hu : IsTable rows width u) :
    IsTable rows width (List.zipWith add t u) where
  rows := by rw [List.length_zipWith, ht.rows, hu.rows, min_self]
  width := fun r hr => by
    rw [← List.map_uncurry_zip_eq_zipWith] at hr
    obtain ⟨p, hp, rfl⟩ := List.mem_map.mp hr
    obtain ⟨hleft, hright⟩ := List.of_mem_zip hp
    exact (length_add ((ht.width _ hleft).trans (hu.width _ hright).symm)).trans (ht.width _ hleft)

lemma IsTable.foldl {ts : List (List (List α))} (h : ∀ t ∈ ts, IsTable rows width t)
    (hu : IsTable rows width u) : IsTable rows width (ts.foldl (List.zipWith Gradient.add) u) := by
  induction ts generalizing u with
  | nil => exact hu
  | cons t rest ih =>
    exact ih (fun t ht => h t (List.mem_cons_of_mem _ ht)) (hu.add (h t List.mem_cons_self))

/-- The numbers of tables of one size are added place by place. -/
lemma IsTable.flatten_add (ht : IsTable rows width t) (hu : IsTable rows width u) :
    (List.zipWith Gradient.add t u).flatten = Gradient.add t.flatten u.flatten := by
  obtain ⟨hrows, htwidth⟩ := ht
  obtain ⟨hrowsu, huwidth⟩ := hu
  have hlength : t.length = u.length := hrows.trans hrowsu.symm
  clear hrows hrowsu
  induction t generalizing u with
  | nil =>
    rw [List.eq_nil_of_length_eq_zero hlength.symm]
    rfl
  | cons r rest ih =>
    cases u with
    | nil => cases hlength
    | cons s others =>
      obtain ⟨hr, hrest⟩ := List.forall_mem_cons.mp htwidth
      obtain ⟨hs, hothers⟩ := List.forall_mem_cons.mp huwidth
      rw [List.zipWith_cons_cons, List.flatten_cons, List.flatten_cons, List.flatten_cons,
        add_append (hr.trans hs.symm), ih hrest hothers (Nat.succ.inj hlength)]

end Tables

section Places

variable {α : Type} {rows width : Nat}

/-- The table with given numbers at its rows and places. -/
def tableOf (rows width : Nat) (f : Nat → Nat → α) : List (List α) :=
  (List.range rows).map fun r => (List.range width).map (f r)

lemma isTable_tableOf (rows width : Nat) (f : Nat → Nat → α) :
    IsTable rows width (tableOf rows width f) where
  rows := (List.length_map _).trans List.length_range
  width := List.forall_mem_map.mpr fun _ _ => (List.length_map _).trans List.length_range

lemma tableOf_congr {f g : Nat → Nat → α} (h : ∀ r < rows, ∀ j < width, f r j = g r j) :
    tableOf rows width f = tableOf rows width g :=
  List.map_congr_left fun r hr => List.map_congr_left fun j hj =>
    h r (List.mem_range.mp hr) j (List.mem_range.mp hj)

lemma map_tableOf {β : Type} (g : α → β) (f : Nat → Nat → α) :
    (tableOf rows width f).map (List.map g) = tableOf rows width fun r j => g (f r j) := by
  unfold tableOf
  rw [List.map_map]
  exact List.map_congr_left fun r _ => List.map_map

end Places

section Scatter

variable {α : Type} [Scalar α] {rows width : Nat} {hits others : List (Nat × List α)}

lemma zipWith_tableOf (f g : Nat → Nat → α) :
    List.zipWith add (tableOf rows width f) (tableOf rows width g) =
      tableOf rows width fun r j => f r j + g r j := by
  unfold tableOf add
  simp only [List.zipWith_map, List.zipWith_self]

/-- A row added to one row of a table changes the places of that row. -/
lemma modify_tableOf (f : Nat → Nat → α) {hit : Nat × List α} (h : hit.2.length = width) :
    (tableOf rows width f).modify hit.1 (add · hit.2) =
      tableOf rows width fun r j => if hit.1 = r then f r j + hit.2.getD j 0 else f r j := by
  refine List.ext_getElem (by simp [tableOf]) fun r hr hr' => ?_
  rw [List.getElem_modify]
  simp only [tableOf, List.getElem_map, List.getElem_range]
  by_cases heq : hit.1 = r
  · simp only [if_pos heq]
    unfold add
    refine List.ext_getElem (by simp [h]) fun j hj hj' => ?_
    have hlt : j < hit.2.length := by
      rw [List.length_zipWith] at hj
      omega
    rw [List.getElem_zipWith, List.getElem_map, List.getElem_map, List.getElem_range,
      List.getD_eq_getElem?_getD, List.getElem?_eq_getElem hlt, Option.getD_some]
  · simp only [if_neg heq]

/-- Rows added one after the other to rows of a table: each place gets the numbers of the rows that
fall on its row. -/
lemma foldl_tableOf (h : ∀ hit ∈ hits, hit.2.length = width) (f : Nat → Nat → α) :
    hits.foldl (fun table hit => table.modify hit.1 (add · hit.2)) (tableOf rows width f) =
      tableOf rows width fun r j =>
        ((hits.filter (·.1 == r)).map (·.2.getD j 0)).foldl (· + ·) (f r j) := by
  induction hits generalizing f with
  | nil => rfl
  | cons hit rest ih =>
    obtain ⟨hhit, hrest⟩ := List.forall_mem_cons.mp h
    rw [List.foldl_cons, modify_tableOf f hhit, ih hrest]
    refine tableOf_congr fun r _ j _ => ?_
    by_cases heq : hit.1 = r
    · rw [if_pos heq, List.filter_cons, if_pos (beq_iff_eq.mpr heq), List.map_cons, List.foldl_cons]
    · rw [if_neg heq, List.filter_cons, if_neg (by simpa using heq)]

/-- What is scattered over a table, place by place. -/
theorem scatter_eq_tableOf (h : ∀ hit ∈ hits, hit.2.length = width) :
    scatter rows width hits =
      tableOf rows width fun r j => total ((hits.filter (·.1 == r)).map (·.2.getD j 0)) := by
  have hzeros : List.replicate rows (List.replicate width (0 : α)) =
      tableOf rows width fun _ _ => 0 := by
    simp [tableOf]
  unfold scatter
  rw [hzeros, foldl_tableOf h]
  rfl

lemma isTable_scatter (h : ∀ hit ∈ hits, hit.2.length = width) :
    IsTable rows width (scatter rows width hits) := by
  rw [scatter_eq_tableOf h]
  exact isTable_tableOf rows width _

variable [ExactSum α]

/-- What is added at places in two groups is added in both. -/
theorem scatter_append (h : ∀ hit ∈ hits, hit.2.length = width)
    (ho : ∀ hit ∈ others, hit.2.length = width) :
    scatter rows width (hits ++ others) =
      List.zipWith add (scatter rows width hits) (scatter rows width others) := by
  rw [scatter_eq_tableOf h, scatter_eq_tableOf ho,
    scatter_eq_tableOf (List.forall_mem_append.mpr ⟨h, ho⟩), zipWith_tableOf]
  refine tableOf_congr fun r _ j _ => ?_
  rw [List.filter_append, List.map_append, total_append]

lemma total_add {xs ys : List α} (h : xs.length = ys.length) :
    total (add xs ys) = total xs + total ys := by
  induction xs generalizing ys with
  | nil =>
    rw [List.eq_nil_of_length_eq_zero h.symm]
    exact (ExactSum.zero_add 0).symm
  | cons x rest ih =>
    cases ys with
    | nil => cases h
    | cons y others =>
      change total ((x + y) :: add rest others) = _
      rw [total_cons, total_cons, total_cons, ih (Nat.succ.inj h), ExactSum.add_assoc,
        ExactSum.add_assoc, ← ExactSum.add_assoc y, ExactSum.add_comm y, ExactSum.add_assoc]

/-- A row that is added to a row of a table is added to the sum of the table. -/
lemma total_modify (ht : IsTable rows width t) {hit : Nat × List α} (hrow : hit.1 < rows)
    (hhit : hit.2.length = width) :
    total (t.modify hit.1 (add · hit.2)).flatten = total t.flatten + total hit.2 := by
  have hlt : hit.1 < t.length := ht.rows.symm ▸ hrow
  have hwidth : t[hit.1].length = hit.2.length :=
    (ht.width _ (List.getElem_mem hlt)).trans hhit.symm
  have hsplit : t = t.take hit.1 ++ t[hit.1] :: t.drop (hit.1 + 1) := by
    rw [← List.drop_eq_getElem_cons hlt, List.take_append_drop]
  rw [List.modify_eq_take_cons_drop hlt]
  conv_rhs => rw [hsplit]
  simp only [List.flatten_append, List.flatten_cons, total_append, total_add hwidth]
  rw [ExactSum.add_assoc (total t[hit.1]), ExactSum.add_comm (total hit.2), ExactSum.add_assoc,
    ExactSum.add_assoc]

lemma total_zeros (n : Nat) : total (List.replicate n (0 : α)) = 0 := by
  induction n with
  | zero => rfl
  | succ n ih => rw [List.replicate_succ, total_cons, ih, ExactSum.zero_add]

/-- The sum of what is scattered over a table is the sum of all that falls on its rows. -/
theorem total_scatter (hrows : ∀ hit ∈ hits, hit.1 < rows)
    (hwidths : ∀ hit ∈ hits, hit.2.length = width) :
    total (scatter rows width hits).flatten = total (hits.map fun hit => total hit.2) := by
  have hzeros : total (List.replicate rows (List.replicate width (0 : α))).flatten = 0 := by
    rw [flatten_zeros, total_zeros]
  induction hits with
  | nil => exact hzeros
  | cons hit rest ih =>
    obtain ⟨hrow, hrows⟩ := List.forall_mem_cons.mp hrows
    obtain ⟨hwidth, hwidths⟩ := List.forall_mem_cons.mp hwidths
    have hone : total (scatter rows width [hit]).flatten = total hit.2 := by
      change total ((List.replicate rows (List.replicate width 0)).modify hit.1
        (add · hit.2)).flatten = _
      rw [total_modify (isTable_zeros rows width) hrow hwidth, hzeros, ExactSum.zero_add]
    have hfirst : IsTable rows width (scatter rows width [hit]) :=
      isTable_scatter (List.forall_mem_singleton.mpr hwidth)
    have hrest : IsTable rows width (scatter rows width rest) := isTable_scatter hwidths
    calc total (scatter rows width (hit :: rest)).flatten
        = total (add (scatter rows width [hit]).flatten (scatter rows width rest).flatten) := by
          rw [← List.singleton_append, scatter_append (List.forall_mem_singleton.mpr hwidth) hwidths,
            hfirst.flatten_add hrest]
      _ = total hit.2 + total (rest.map fun hit => total hit.2) := by
          rw [total_add (hfirst.length_flatten.trans hrest.length_flatten.symm), hone,
            ih hrows hwidths]
      _ = _ := by
          rw [List.map_cons, total_cons]

end Scatter

end WideDeep.Proofs
