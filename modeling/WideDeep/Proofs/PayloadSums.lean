import Mathlib.Tactic
import WideDeep.Aggregation
import WideDeep.Proofs.ExactSums
import WideDeep.Proofs.ParameterSets

/-!
# Sums of payloads

Two payloads are combined if their gradients have the same names and shapes. What has been combined
from several payloads holds, place by place, the sums of their numbers.
-/

namespace WideDeep.Proofs

section Combining

variable {δ : Type} [Scalar δ]

/-- The sum of two payloads with gradients of the same names and shapes. -/
def joined (p q : Payload δ) : Payload δ where
  gradients := p.gradients.combine (· + ·) q.gradients
  totals := p.totals.add q.totals
  iteration := if p.iteration < q.iteration then q.iteration else p.iteration

lemma addGradients_eq_ok {ps qs rs : Parameters δ} :
    Payload.addGradients ps qs = .ok rs ↔
      (∀ p ∈ ps, p.1 ∈ qs.names ∧ p.2.shape = (qs.tensor p.1).shape) ∧
        rs = ps.combine (· + ·) qs := by
  unfold Payload.addGradients
  refine mapM_eq_ok_map fun p r => ?_
  obtain ⟨name, s⟩ := p
  dsimp only
  by_cases hname : name ∈ qs.names
  · rw [get?_of_mem hname]
    by_cases hshape : s.shape = (qs.tensor name).shape
    · simp [hname, hshape, Tensor.combine, eq_comm]
    · simp [hshape]
  · rw [get?_of_not_mem hname]
    simp [hname]

lemma addGradients_error {ps qs : Parameters δ} {e : Error}
    (h : Payload.addGradients ps qs = .error e) : e.kind = .invalidValue := by
  obtain ⟨⟨name, s⟩, -, hstep⟩ := mapM_error h
  dsimp only at hstep
  split at hstep
  · cases hstep
    rfl
  · split at hstep
    · cases hstep
    · cases hstep
      rfl

/-- When two payloads are combined, and into what. -/
theorem combine_eq_ok {p q r : Payload δ} (hp : p.gradients.names.Nodup)
    (hq : q.gradients.names.Nodup) :
    p.combine q = .ok r ↔ p.gradients.shapes.Perm q.gradients.shapes ∧ r = joined p q := by
  rw [shapes_perm_iff hp hq]
  unfold Payload.combine
  dsimp only
  by_cases hnames : ∀ n, n ∈ p.gradients.names ↔ n ∈ q.gradients.names
  · rw [difference_eq_nil.mpr hnames]
    simp only [List.isEmpty_nil, Bool.not_true, Bool.false_eq_true, if_false, bind_eq_ok,
      addGradients_eq_ok]
    constructor
    · rintro ⟨gradients, ⟨hfit, rfl⟩, hdone⟩
      cases hdone
      exact ⟨⟨hnames, fun e he => (hfit e he).2.symm⟩, rfl⟩
    · rintro ⟨⟨-, hshapes⟩, rfl⟩
      refine ⟨_, ⟨fun e he => ⟨(hnames e.1).mp (List.mem_map_of_mem he), (hshapes e he).symm⟩, rfl⟩, rfl⟩
  · have hsome : (Parameters.difference p.gradients.names q.gradients.names).isEmpty = false := by
      rw [List.isEmpty_eq_false_iff]
      exact fun hnil => hnames (difference_eq_nil.mp hnil)
    rw [hsome]
    constructor
    · intro h
      cases h
    · rintro ⟨⟨hsame, -⟩, -⟩
      exact absurd hsame hnames

/-- Payloads that do not fit together are refused as a value. -/
theorem combine_error {p q : Payload δ} {e : Error} (h : p.combine q = .error e) :
    e.kind = .invalidValue := by
  unfold Payload.combine at h
  dsimp only at h
  split at h
  · cases h
    rfl
  · rcases bind_eq_error.mp h with hadd | ⟨_, -, hpure⟩
    · exact addGradients_error hadd
    · cases hpure

end Combining

section Entries

variable {δ : Type} [Scalar δ]

/-- A number of a set of gradients, by name and place. -/
def entry (ps : Parameters δ) (name : ParamName) (k : Nat) : δ :=
  (ps.tensor name).data.getD k 0

lemma tensor_ext {s t : Tensor δ} (hshape : s.shape = t.shape)
    (hdata : ∀ k, s.data.getD k 0 = t.data.getD k 0) : s = t := by
  obtain ⟨shape, xs, hxs⟩ := s
  obtain ⟨shape', ys, hys⟩ := t
  dsimp only at hshape hdata
  subst hshape
  have hlength : xs.length = ys.length := hxs.trans hys.symm
  have hsame : xs = ys := by
    refine List.ext_getElem hlength fun k hx hy => ?_
    have hk := hdata k
    rwa [List.getD_eq_getElem?_getD, List.getD_eq_getElem?_getD, List.getElem?_eq_getElem hx,
      List.getElem?_eq_getElem hy] at hk
  subst hsame
  rfl

lemma names_combine (f : δ → δ → δ) (ps qs : Parameters δ) : (ps.combine f qs).names = ps.names := by
  unfold Parameters.combine Parameters.names
  rw [List.map_map]
  rfl

lemma tensor_combine {ps qs : Parameters δ} {f : δ → δ → δ} (hp : ps.names.Nodup) {name : ParamName}
    (h : name ∈ ps.names) :
    (ps.combine f qs).tensor name = (ps.tensor name).combine f (qs.tensor name) := by
  refine tensor_of_mem (by rwa [names_combine]) ?_
  exact List.mem_map_of_mem (f := fun p => (p.1, p.2.combine f (qs.tensor p.1))) (mem_tensor h)

lemma entry_of_not_mem {ps : Parameters δ} {name : ParamName} (h : name ∉ ps.names) (k : Nat) :
    entry ps name k = 0 := by
  unfold entry Parameters.tensor
  rw [get?_of_not_mem h]
  cases k <;> rfl

variable [ExactSum δ] {p q : Payload δ}

lemma getD_zipWith_add {xs ys : List δ} (h : xs.length = ys.length) (k : Nat) :
    (List.zipWith (· + ·) xs ys).getD k 0 = xs.getD k 0 + ys.getD k 0 := by
  simp only [List.getD_eq_getElem?_getD, List.getElem?_zipWith]
  by_cases hk : k < xs.length
  · rw [List.getElem?_eq_getElem hk, List.getElem?_eq_getElem (h ▸ hk)]
    rfl
  · rw [List.getElem?_eq_none (not_lt.mp hk), List.getElem?_eq_none (h ▸ not_lt.mp hk)]
    exact (ExactSum.zero_add 0).symm

lemma entry_joined (hp : p.gradients.names.Nodup) (hq : q.gradients.names.Nodup)
    (h : p.gradients.shapes.Perm q.gradients.shapes) (name : ParamName) (k : Nat) :
    entry (joined p q).gradients name k = entry p.gradients name k + entry q.gradients name k := by
  obtain ⟨hnames, hshapes⟩ := (shapes_perm_iff hp hq).mp h
  by_cases hname : name ∈ p.gradients.names
  · have hshape : (p.gradients.tensor name).shape = (q.gradients.tensor name).shape :=
      (hshapes _ (mem_tensor hname)).symm
    unfold entry joined
    rw [tensor_combine hp hname, Tensor.combine, dif_pos hshape]
    refine getD_zipWith_add ?_ k
    rw [Tensor.size_eq, Tensor.size_eq, hshape]
  · have hjoined : name ∉ (joined p q).gradients.names := by rwa [joined, names_combine]
    have hother : name ∉ q.gradients.names := fun hmem => hname ((hnames name).mpr hmem)
    rw [entry_of_not_mem hname, entry_of_not_mem hother, entry_of_not_mem hjoined, ExactSum.zero_add]

end Entries

section Sums

variable {δ : Type} [Scalar δ] [ExactSum δ] {p q : Payload δ}

/-- A payload holds the sums of several ones. -/
structure Sums (ps : List (Payload δ)) (q : Payload δ) : Prop where
  names : q.gradients.names.Nodup
  shapes : ∀ p ∈ ps, p.gradients.shapes.Perm q.gradients.shapes
  gradients : ∀ name k,
    entry q.gradients name k = total (ps.map fun p => entry p.gradients name k)
  trainCount : q.totals.trainCount = total (ps.map (·.totals.trainCount))
  validationCount : q.totals.validationCount = total (ps.map (·.totals.validationCount))
  trainError : q.totals.trainError = total (ps.map (·.totals.trainError))
  validationError : q.totals.validationError = total (ps.map (·.totals.validationError))
  iteration : ∀ i, q.iteration ≤ i ↔ ∀ p ∈ ps, p.iteration ≤ i

namespace Sums

variable {ps qs : List (Payload δ)}

lemma single (h : p.gradients.names.Nodup) : Sums [p] p where
  names := h
  shapes := by
    intro r hr
    rw [List.mem_singleton.mp hr]
  gradients := fun name k => (total_singleton _).symm
  trainCount := (total_singleton _).symm
  validationCount := (total_singleton _).symm
  trainError := (total_singleton _).symm
  validationError := (total_singleton _).symm
  iteration := by simp

/-- The sums of two groups make up the sum of all. -/
theorem join (hp : Sums ps p) (hq : Sums qs q) (h : p.gradients.shapes.Perm q.gradients.shapes) :
    Sums (ps ++ qs) (joined p q) where
  names := by
    rw [joined, names_combine]
    exact hp.names
  shapes := by
    have hshapes : (joined p q).gradients.shapes = p.gradients.shapes :=
      Parameters.shapes_combine _ _ _
    rw [hshapes]
    intro r hr
    rcases List.mem_append.mp hr with hleft | hright
    · exact hp.shapes r hleft
    · exact (hq.shapes r hright).trans h.symm
  gradients := fun name k => by
    rw [entry_joined hp.names hq.names h, hp.gradients, hq.gradients, List.map_append, total_append]
  trainCount := by
    rw [List.map_append, total_append, ← hp.trainCount, ← hq.trainCount]
    rfl
  validationCount := by
    rw [List.map_append, total_append, ← hp.validationCount, ← hq.validationCount]
    rfl
  trainError := by
    rw [List.map_append, total_append, ← hp.trainError, ← hq.trainError]
    rfl
  validationError := by
    rw [List.map_append, total_append, ← hp.validationError, ← hq.validationError]
    rfl
  iteration := by
    intro i
    rw [List.forall_mem_append, ← hp.iteration, ← hq.iteration]
    unfold joined
    dsimp only
    split <;> omega

/-- Two sums of the same payloads, whatever their order, are the same up to the order of the
gradients. -/
theorem unique (hp : Sums ps p) (hq : Sums qs q) (hperm : ps.Perm qs) (hne : ps ≠ []) :
    p.gradients.Perm q.gradients ∧ p.totals = q.totals ∧ p.iteration = q.iteration := by
  obtain ⟨r, hr⟩ := List.exists_mem_of_ne_nil ps hne
  have hshapes : p.gradients.shapes.Perm q.gradients.shapes :=
    (hp.shapes r hr).symm.trans (hq.shapes r (hperm.mem_iff.mp hr))
  obtain ⟨hnames, hsame⟩ := (shapes_perm_iff hp.names hq.names).mp hshapes
  have htotal : ∀ part : Payload δ → δ, total (ps.map part) = total (qs.map part) :=
    fun part => total_perm (hperm.map part)
  refine ⟨perm_of_tensor hp.names hq.names hnames fun name hname => ?_, ?_, ?_⟩
  · refine tensor_ext (hsame _ (mem_tensor hname)).symm fun k => ?_
    have hsums : entry p.gradients name k = entry q.gradients name k := by
      rw [hp.gradients, hq.gradients, htotal]
    exact hsums
  · have hcount := (hp.trainCount.trans (htotal _)).trans hq.trainCount.symm
    have hvalid := (hp.validationCount.trans (htotal _)).trans hq.validationCount.symm
    have herror := (hp.trainError.trans (htotal _)).trans hq.trainError.symm
    have hvalidError := (hp.validationError.trans (htotal _)).trans hq.validationError.symm
    have hfields : Totals.mk p.totals.trainCount p.totals.validationCount p.totals.trainError
        p.totals.validationError = Totals.mk q.totals.trainCount q.totals.validationCount
        q.totals.trainError q.totals.validationError := by
      rw [hcount, hvalid, herror, hvalidError]
    exact hfields
  · have hle : ∀ i, p.iteration ≤ i ↔ q.iteration ≤ i := by
      intro i
      rw [hp.iteration, hq.iteration]
      exact forall_congr' fun r => by rw [hperm.mem_iff]
    exact le_antisymm ((hle _).mpr le_rfl) ((hle _).mp le_rfl)

end Sums

end Sums

section Means

variable {α δ : Type} [Scalar α] [Scalar δ] [Precision α δ] {layout : List (ParamName × List Nat)}
  {alone : Bool} {p : Payload δ}

/-- When the gradients of a payload fit a layout, and what their means are. -/
theorem meanGradients_eq_ok {gradients : Parameters α} :
    Job.meanGradients layout alone p = .ok gradients ↔
      (∀ n, n ∈ layout.map Prod.fst ↔ n ∈ p.gradients.names) ∧
      (∀ e ∈ layout, (p.gradients.tensor e.1).shape = e.2) ∧
      gradients = layout.map fun e => (e.1,
        Job.scaled alone (Job.meanFactor p.totals.trainCount) (p.gradients.tensor e.1)) := by
  unfold Job.meanGradients
  dsimp only
  by_cases hnames : ∀ n, n ∈ layout.map Prod.fst ↔ n ∈ p.gradients.names
  · rw [difference_eq_nil.mpr hnames]
    refine (mapM_eq_ok_map
      (P := fun e => e.1 ∈ p.gradients.names ∧ (p.gradients.tensor e.1).shape = e.2)
      (g := fun e => (e.1, Job.scaled alone (Job.meanFactor p.totals.trainCount)
        (p.gradients.tensor e.1))) fun e g => ?_).trans ?_
    · by_cases hname : e.1 ∈ p.gradients.names
      · rw [get?_of_mem hname]
        by_cases hshape : (p.gradients.tensor e.1).shape = e.2
        · simp [hname, hshape, eq_comm]
        · simp [hshape]
      · rw [get?_of_not_mem hname]
        simp [hname]
    constructor
    · rintro ⟨hfit, hgradients⟩
      exact ⟨hnames, fun e he => (hfit e he).2, hgradients⟩
    · rintro ⟨-, hshapes, hgradients⟩
      refine ⟨fun e he => ⟨?_, hshapes e he⟩, hgradients⟩
      exact (hnames e.1).mp (List.mem_map_of_mem he)
  · have hsome : (Parameters.difference (layout.map Prod.fst) p.gradients.names).isEmpty = false := by
      rw [List.isEmpty_eq_false_iff]
      exact fun hnil => hnames (difference_eq_nil.mp hnil)
    rw [hsome]
    constructor
    · intro h
      cases h
    · rintro ⟨hsame, -⟩
      exact absurd hsame hnames

/-- Gradients that do not fit a layout are refused as a value. -/
theorem meanGradients_error {e : Error}
    (h : (Job.meanGradients layout alone p : Except Error (Parameters α)) = .error e) :
    e.kind = .invalidValue := by
  unfold Job.meanGradients at h
  dsimp only at h
  split at h
  · cases h
    rfl
  · obtain ⟨⟨name, shape⟩, -, hstep⟩ := mapM_error h
    dsimp only at hstep
    split at hstep
    · cases hstep
      rfl
    · split at hstep
      · cases hstep
      · cases hstep
        rfl

end Means

end WideDeep.Proofs
