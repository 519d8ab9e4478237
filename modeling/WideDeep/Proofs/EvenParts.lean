import Mathlib.Tactic
import WideDeep.Training
import WideDeep.Proofs.DatasetParts

/-!
# Even parts

The cuts of a split stand at the whole parts of equal steps. The parts between them hold every record
once and in order, and their sizes differ by one at most. Cuts computed in double precision fall short
by one at some places where a step ends exactly, and the parts are as even.
-/

namespace WideDeep.Proofs
open Binary

section Cuts

variable {cut : Nat → Nat} {size parts i : Nat}

/-- The place of a cut computed exactly. -/
def exactCut (size parts i : Nat) : Nat :=
  i * size / parts

/-- Cuts that fall short of their exact places by one at most, and not at all if the steps between
them are whole. -/
structure NearCuts (cut : Nat → Nat) (size parts : Nat) : Prop where
  last : cut parts = size
  below : ∀ i ≤ parts, cut i * parts ≤ i * size
  above : ∀ i ≤ parts, i * size ≤ cut i * parts + parts
  whole : parts ∣ size → ∀ i ≤ parts, cut i * parts = i * size

namespace NearCuts

lemma first (h : NearCuts cut size parts) (hparts : 0 < parts) : cut 0 = 0 := by
  have hzero := h.below 0 (Nat.zero_le parts)
  rw [Nat.zero_mul] at hzero
  exact (Nat.mul_eq_zero.mp (Nat.le_zero.mp hzero)).resolve_right hparts.ne'

/-- The cuts stand in order, and the distances between them differ by one at most. -/
theorem step (h : NearCuts cut size parts) (hi : i < parts) :
    cut i + size / parts ≤ cut (i + 1) ∧ cut (i + 1) ≤ cut i + size / parts + 1 := by
  have hpos : 0 < parts := by omega
  have hnext : (i + 1) * size = i * size + size := Nat.succ_mul i size
  have hsize := Nat.div_add_mod' size parts
  obtain ⟨q, hq⟩ : ∃ q, q = size / parts := ⟨_, rfl⟩
  rw [← hq] at hsize ⊢
  rcases Nat.eq_zero_or_pos (size % parts) with hrest | hrest
  · have hwhole := h.whole (Nat.dvd_of_mod_eq_zero hrest)
    have hequal : cut (i + 1) * parts = (cut i + q) * parts := by
      rw [hwhole (i + 1) (by omega), Nat.add_mul (cut i), hwhole i (by omega)]
      omega
    have hstep := Nat.eq_of_mul_eq_mul_right hpos hequal
    omega
  · have hless := Nat.mod_lt size hpos
    have hbelow := h.below i (by omega)
    have habove := h.above i (by omega)
    have hbelow' := h.below (i + 1) (by omega)
    have habove' := h.above (i + 1) (by omega)
    have hlower : (cut i + q) * parts < (cut (i + 1) + 1) * parts := by
      rw [Nat.add_mul, Nat.add_mul]
      omega
    have hupper : cut (i + 1) * parts < (cut i + q + 2) * parts := by
      rw [Nat.add_mul, Nat.add_mul]
      omega
    have hlt := Nat.lt_of_mul_lt_mul_right hlower
    have hlt' := Nat.lt_of_mul_lt_mul_right hupper
    omega

lemma mono (h : NearCuts cut size parts) (hi : i < parts) : cut i ≤ cut (i + 1) :=
  (Nat.le_add_right _ _).trans (h.step hi).1

lemma le_size (h : NearCuts cut size parts) (hi : i ≤ parts) : cut i ≤ size := by
  rcases Nat.eq_zero_or_pos parts with hparts | hparts
  · have hzero : i = parts := by omega
    exact (hzero ▸ h.last).le
  · exact Nat.le_of_mul_le_mul_right
      ((h.below i hi).trans ((Nat.mul_le_mul_right size hi).trans_eq (Nat.mul_comm _ _))) hparts

end NearCuts

theorem nearCuts_exact (size : Nat) (hparts : 0 < parts) :
    NearCuts (exactCut size parts) size parts where
  last := Nat.mul_div_cancel_left size hparts
  below _ _ := Nat.div_mul_le_self _ parts
  above _ _ := (Nat.lt_div_mul_add hparts).le
  whole hdvd i _ := Nat.div_mul_cancel (hdvd.mul_left i)

/-- Counts below this are doubles, and so are their products. -/
lemma counts_lt (hsize : (size + 1) * parts < 2 ^ 50) (hparts : 0 < parts) :
    size < 2 ^ 50 ∧ parts < 2 ^ 50 ∧ size * parts < 2 ^ 50 := by
  rw [Nat.succ_mul] at hsize
  have hmul := Nat.le_mul_of_pos_right size hparts
  omega

/-- The step is rounded once, since the counts are doubles. -/
lemma cutPlace_eq (hsize : (size + 1) * parts < 2 ^ 50) (hi : i < parts) :
    cutPlace size parts i = nearestTo (i * valueOf (nearestTo (size / parts))) := by
  obtain ⟨hsize', hparts', -⟩ := counts_lt hsize (by omega)
  unfold cutPlace cutStep
  rw [(nearestTo_natCast (n := i) (by omega)).2, (nearestTo_natCast (n := size) (by omega)).2,
    (nearestTo_natCast (n := parts) (by omega)).2]

/-- If the steps are whole, the cuts computed in double precision are exact. -/
lemma evenCut_whole (hsize : (size + 1) * parts < 2 ^ 50) (hdvd : parts ∣ size) (hi : i < parts) :
    Dataset.evenCut size parts i * parts = i * size := by
  obtain ⟨hsize', hparts', -⟩ := counts_lt hsize (by omega)
  obtain ⟨q, rfl⟩ := hdvd
  have hpos : (parts : ℚ) ≠ 0 := by exact_mod_cast (by omega : parts ≠ 0)
  have hproduct : i * q ≤ parts * q := Nat.mul_le_mul_right q hi.le
  have hstep : q ≤ parts * q := Nat.le_mul_of_pos_left q (by omega)
  have hplace : cutPlace (parts * q) parts i = nearestTo (i * q : Nat) := by
    rw [cutPlace_eq hsize hi, Nat.cast_mul, mul_div_cancel_left₀ _ hpos,
      (nearestTo_natCast (n := q) (by omega)).2, Nat.cast_mul]
  obtain ⟨hfinite, hvalue⟩ := nearestTo_natCast (n := i * q) (by omega)
  rw [evenCut_eq (by omega) (by omega) hi, hplace, wholePart_eq hfinite, hvalue, Nat.floor_natCast]
  ring

/-- The rounding of a share, seen from the whole that is shared. -/
lemma share_error {v n : ℚ} (hone : 1 ≤ n) (hn : n < 2 ^ 50) (hlow : 1 / 2 ≤ v * n)
    (hhigh : v * n < 2 ^ 51) : |valueOf (nearestTo v) * n - v * n| ≤ v * n / 2 ^ 52 := by
  have hpos : 0 < n := by linarith
  have hv : 0 < v := pos_of_mul_pos_left (by linarith) hpos.le
  have hleast : (2 : ℚ) ^ (-100 : Int) ≤ v := by
    have hbound : 1 / 2 ≤ v * 2 ^ 50 := hlow.trans (mul_le_mul_of_nonneg_left hn.le hv.le)
    norm_num at hbound ⊢
    linarith
  have hmost : v < 2 ^ (100 : Int) := by
    have hbound : v ≤ v * n := le_mul_of_one_le_right hv.le hone
    norm_num at hbound hhigh ⊢
    linarith
  have herror := (nearestTo_error hleast hmost).2
  calc |valueOf (nearestTo v) * n - v * n| = |valueOf (nearestTo v) - v| * n := by
        rw [← sub_mul, abs_mul, abs_of_pos hpos]
    _ ≤ v / 2 ^ 52 * n := mul_le_mul_of_nonneg_right herror hpos.le
    _ = v * n / 2 ^ 52 := by ring

/-- The place of a cut computed in double precision errs by less than one of the parts into which a
record would be cut. -/
lemma cutPlace_error (hsize : (size + 1) * parts < 2 ^ 50) (hpos : 0 < size) (hi : 0 < i)
    (hlt : i < parts) : |valueOf (cutPlace size parts i) * parts - i * size| < 1 := by
  obtain ⟨hsize', hparts', hproduct⟩ := counts_lt hsize (by omega)
  have hone : (1 : ℚ) ≤ parts := by exact_mod_cast (by omega : 1 ≤ parts)
  have hn : (parts : ℚ) < 2 ^ 50 := by exact_mod_cast hparts'
  have hfirst : (1 : ℚ) ≤ i := by exact_mod_cast hi
  have hsome : (1 : ℚ) ≤ size := by exact_mod_cast hpos
  have hmost : (size : ℚ) < 2 ^ 50 := by exact_mod_cast hsize'
  have hwithin : (i : ℚ) * size < 2 ^ 50 := by
    exact_mod_cast (Nat.mul_le_mul_right size hlt.le).trans_lt (by rwa [Nat.mul_comm])
  have hcount : (1 : ℚ) ≤ i * size := one_le_mul_of_one_le_of_one_le hfirst hsome
  obtain ⟨s, hs⟩ : ∃ s, s = valueOf (nearestTo (size / parts)) := ⟨_, rfl⟩
  have hstep : |s * parts - size| ≤ size / 2 ^ 52 := by
    have hshare : (size : ℚ) / parts * parts = size := div_mul_cancel₀ _ (by linarith)
    have herror := share_error (v := size / parts) hone hn (by linarith) (by linarith)
    rwa [hshare, ← hs] at herror
  have hscaled : |i * s * parts - i * size| ≤ i * size / 2 ^ 52 := by
    rw [mul_assoc, ← mul_sub, abs_mul, abs_of_nonneg (by linarith), mul_div_assoc]
    exact mul_le_mul_of_nonneg_left hstep (by linarith)
  rw [abs_le] at hscaled
  have hplace := share_error (v := i * s) hone hn (by linarith) (by linarith)
  rw [abs_le] at hplace
  rw [cutPlace_eq hsize hlt, ← hs, abs_lt]
  constructor <;> linarith

/-- A cut between the first and the last falls short by one at most. -/
lemma evenCut_near (hsize : (size + 1) * parts < 2 ^ 50) (hpos : 0 < size) (hi : 0 < i)
    (hlt : i < parts) : Dataset.evenCut size parts i * parts ≤ i * size ∧
      i * size ≤ Dataset.evenCut size parts i * parts + parts := by
  obtain ⟨hsize', hparts', -⟩ := counts_lt hsize (by omega)
  have hp : (0 : ℚ) < parts := by exact_mod_cast (by omega : 0 < parts)
  have herror := abs_lt.mp (cutPlace_error hsize hpos hi hlt)
  have hfloor := Nat.floor_le (valueOf_nonneg (cutPlace size parts i))
  have hnext := Nat.lt_floor_add_one (valueOf (cutPlace size parts i))
  rw [evenCut_eq (by omega) (by omega) hlt, wholePart_eq (cutPlace_lt (by omega) (by omega) hlt)]
  generalize ⌊valueOf (cutPlace size parts i)⌋₊ = c at hfloor hnext ⊢
  have hbelow : (c : ℚ) * parts < i * size + 1 := by
    have hmul := mul_le_mul_of_nonneg_right hfloor hp.le
    linarith
  have habove : (i : ℚ) * size < (c + 1) * parts + 1 := by
    have hmul := mul_lt_mul_of_pos_right hnext hp
    linarith
  have hbelow' : c * parts < i * size + 1 := by exact_mod_cast hbelow
  have habove' : i * size < (c + 1) * parts + 1 := by exact_mod_cast habove
  rw [Nat.succ_mul] at habove'
  omega

/-- Cuts computed in double precision are near the exact ones as long as the product of the counts
is in its range. -/
theorem nearCuts_even (hsize : (size + 1) * parts < 2 ^ 50) (hparts : 0 < parts) :
    NearCuts (Dataset.evenCut size parts) size parts := by
  obtain ⟨hsize', hparts', -⟩ := counts_lt hsize hparts
  have hlast := evenCut_last size parts
  have hwhole : parts ∣ size → ∀ i ≤ parts, Dataset.evenCut size parts i * parts = i * size := by
    intro hdvd i hi
    rcases hi.lt_or_eq with hlt | rfl
    · exact evenCut_whole hsize hdvd hlt
    · rw [hlast, Nat.mul_comm]
  have hnear : ∀ i ≤ parts, Dataset.evenCut size parts i * parts ≤ i * size ∧
      i * size ≤ Dataset.evenCut size parts i * parts + parts := by
    intro i hi
    by_cases hends : parts ∣ size ∨ i = 0 ∨ i = parts
    · -- at the ends, and where the steps are whole, the cut is exact
      have hexact : Dataset.evenCut size parts i * parts = i * size := by
        rcases hends with hdvd | rfl | rfl
        · exact hwhole hdvd i hi
        · rw [evenCut_zero (by omega) (by omega) hparts, Nat.zero_mul, Nat.zero_mul]
        · rw [hlast, Nat.mul_comm]
      omega
    · have hsome : size ≠ 0 := fun hzero => hends (Or.inl (hzero ▸ dvd_zero parts))
      exact evenCut_near hsize (by omega) (by omega) (by omega)
  exact ⟨hlast, fun i hi => (hnear i hi).1, fun i hi => (hnear i hi).2, hwhole⟩

end Cuts

section Parts

variable {α : Type} {d : Dataset α} {cut : Nat → Nat} {count : Nat}

/-- Parts of a dataset that hold its five arrays in order, their sizes differing by one at most. -/
structure EvenParts (d : Dataset α) (count : Nat) (parts : List (Dataset α)) : Prop where
  number : parts.length = count
  dense : parts.flatMap (·.batch.dense.rows) = d.batch.dense.rows
  embed : parts.flatMap (·.batch.embed.rows) = d.batch.embed.rows
  wide : parts.flatMap (·.batch.wide.rows) = d.batch.wide.rows
  target : parts.flatMap (·.samples.map (·.target)) = d.samples.map (·.target)
  weight : parts.flatMap (·.samples.map (·.weight)) = d.samples.map (·.weight)
  widths : ∀ p ∈ parts, p = d.withSamples p.samples
  balanced : ∀ p ∈ parts, ∀ q ∈ parts, p.size ≤ q.size + 1
  filled : count ≤ d.size → ∀ p ∈ parts, 0 < p.size

/-- Parts that hold the records in order hold every array of them in order. -/
lemma flatMap_map_samples {β : Type} {parts : List (Dataset α)}
    (h : parts.flatMap (·.samples) = d.samples) (f : Sample α → β) :
    parts.flatMap (fun p => p.samples.map f) = d.samples.map f := by
  rw [← h, List.map_flatMap]

lemma samples_splitWith (h : NearCuts cut d.size count) (hcount : 0 < count) :
    (d.splitWith cut count).flatMap (·.samples) = d.samples := by
  have hslices := flatMap_slices d.samples (h.first hcount) fun i hi => h.mono hi
  unfold Dataset.splitWith
  rw [List.flatMap_map]
  refine hslices.trans ?_
  rw [h.last]
  exact List.take_length

lemma size_slice {start stop : Nat} (hstop : stop ≤ d.size) :
    (d.slice start stop).size = stop - start := by
  change ((d.samples.take stop).drop start).length = stop - start
  rw [List.length_drop, List.length_take, min_eq_left (by exact hstop)]

/-- A part has the number of records that is the whole share of each, or one more. -/
lemma size_of_mem_splitWith (h : NearCuts cut d.size count) {p : Dataset α}
    (hp : p ∈ d.splitWith cut count) : d.size / count ≤ p.size ∧ p.size ≤ d.size / count + 1 := by
  obtain ⟨i, hi, rfl⟩ := List.mem_map.mp hp
  have hlt := List.mem_range.mp hi
  have hstep := h.step hlt
  have hsize : (d.slice (cut i) (cut (i + 1))).size = cut (i + 1) - cut i :=
    size_slice (h.le_size hlt)
  generalize d.size / count = share at hstep ⊢
  omega

/-- Cuts that are near the exact ones give even parts. -/
theorem evenParts_splitWith (h : NearCuts cut d.size count) (hcount : 0 < count) :
    EvenParts d count (d.splitWith cut count) where
  number := length_splitWith d cut count
  dense := flatMap_map_samples (samples_splitWith h hcount) _
  embed := flatMap_map_samples (samples_splitWith h hcount) _
  wide := flatMap_map_samples (samples_splitWith h hcount) _
  target := flatMap_map_samples (samples_splitWith h hcount) _
  weight := flatMap_map_samples (samples_splitWith h hcount) _
  widths p hp := by
    obtain ⟨i, -, rfl⟩ := List.mem_map.mp hp
    rfl
  balanced p hp q hq :=
    (size_of_mem_splitWith h hp).2.trans (Nat.add_le_add_right (size_of_mem_splitWith h hq).1 1)
  filled hle p hp := (Nat.div_pos hle hcount).trans_le (size_of_mem_splitWith h hp).1

lemma less_int (m n : Int) : (Number.int m).less (.int n) = decide (m < n) := by
  rw [Bool.eq_iff_iff, decide_eq_true_iff, ← compare_lt_iff_lt]
  unfold Number.less Number.compare?
  simp

/-- There is a worker at least, and there are no more workers than records if there are any. -/
lemma workerCount_bounds {configured : Number} {records : Nat} {workers : Int}
    (h : Training.workerCount configured records = .ok workers) :
    1 ≤ workers ∧ workers ≤ max 1 records := by
  unfold Training.workerCount at h
  obtain ⟨count, hcount⟩ : ∃ count, count = if (Number.int records).less configured
    then .int records else configured := ⟨_, rfl⟩
  rw [← hcount] at h
  have hmost : ∀ n : Int, count = .int n → n ≤ records := by
    rintro n rfl
    split_ifs at hcount with hless
    · rw [Number.int.inj hcount]
    · rw [← hcount, less_int] at hless
      simpa using hless
  cases count with
  | real x =>
    dsimp only at h
    split_ifs at h
    cases h
    omega
  | int n =>
    have hn := hmost n rfl
    simp only [less_int, decide_eq_true_eq] at h
    split_ifs at h <;> cases h <;> omega

/-- A split into parts gives that many, one after the other and of even sizes, whether the cuts are
exact or computed in double precision for counts in its range. As there are no more workers than
records, none of them is left without any. -/
theorem split_even (d : Dataset α) {count : Nat} (hcount : 1 ≤ count) :
    EvenParts d count (d.splitWith (exactCut d.size count) count) ∧
    ((d.size + 1) * count < 2 ^ 50 →
      ∃ parts, d.split count = .ok parts ∧ EvenParts d count parts) ∧
    (0 < d.size → ∀ configured workers, Training.workerCount configured d.size = .ok workers →
      1 ≤ workers ∧
      ∀ p ∈ d.splitWith (exactCut d.size workers.toNat) workers.toNat, 0 < p.size) := by
  refine ⟨evenParts_splitWith (nearCuts_exact d.size hcount) hcount, ?_, ?_⟩
  · intro hsize
    have hmost : count < 2 ^ 50 := (counts_lt hsize hcount).2.1
    refine ⟨_, split_eq d (by omega) ?_, evenParts_splitWith (nearCuts_even hsize hcount) hcount⟩
    unfold Dataset.mostCuts
    omega
  · intro hsome configured workers hworkers
    obtain ⟨hleast, hmost⟩ := workerCount_bounds hworkers
    have hpos : 0 < workers.toNat := by omega
    have hfew : workers.toNat ≤ d.size := by omega
    exact ⟨hleast, (evenParts_splitWith (nearCuts_exact d.size hpos) hpos).filled hfew⟩

/-- Records that are numbered by their targets. -/
def numbered (n : Nat) : Dataset Int where
  denseWidth := 0
  embedWidth := 0
  wideWidth := 0
  samples := (List.range n).map fun i => ⟨⟨[], [], []⟩, i, 1⟩

/-- Seven records go to three workers, two to the first, two to the second and three to the third. -/
theorem split_even_seven :
    ((numbered 7).splitWith (exactCut 7 3) 3).map Dataset.size = [2, 2, 3] ∧
    ((numbered 7).splitWith (exactCut 7 3) 3).flatMap (·.samples.map (·.target)) =
      [0, 1, 2, 3, 4, 5, 6] ∧
    (∃ parts, (numbered 7).split 3 = .ok parts ∧ parts.length = 3 ∧ ∀ p ∈ parts, 0 < p.size) ∧
    ∀ p ∈ (numbered 7).splitWith (exactCut 7 3) 3, 0 < p.size := by
  obtain ⟨hexact, hsplit, hworkers⟩ := split_even (numbered 7) (show 1 ≤ 3 by decide)
  obtain ⟨parts, hparts, heven⟩ := hsplit (by decide)
  have hcount : Training.workerCount (.int 3) (numbered 7).size = .ok 3 := rfl
  exact ⟨by decide, hexact.target, ⟨parts, hparts, heven.number, heven.filled (by decide)⟩,
    (hworkers (by decide) _ _ hcount).2⟩

end Parts

end WideDeep.Proofs
