import Mathlib.Tactic
import WideDeep.Proofs.MasterSteps
import WideDeep.Proofs.OptimizerSteps
import WideDeep.Proofs.PayloadSums

/-!
# Order and grouping of payloads

A round combines its payloads from the left. If sums are exact, any other order and any grouping has
the same outcome: the payloads are refused, or they give the same gradients, the same step and the
same broadcast.
-/

namespace WideDeep.Proofs

/-- A way to combine payloads, in some order and with some of them combined beforehand. -/
inductive Arrangement (δ : Type) where
  | single (p : Payload δ)
  | join (a b : Arrangement δ)

namespace Arrangement

variable {δ : Type}

def payloads : Arrangement δ → List (Payload δ)
  | single p => [p]
  | join a b => a.payloads ++ b.payloads

def sum [Add δ] : Arrangement δ → Except Error (Payload δ)
  | single p => .ok p
  | join a b => do
    let p ← a.sum
    let q ← b.sum
    p.combine q

/-- Payloads combined one after the other with those of an arrangement. -/
def followedBy (a : Arrangement δ) (rest : List (Payload δ)) : Arrangement δ :=
  rest.foldl (fun a p => .join a (.single p)) a

lemma payloads_ne_nil (a : Arrangement δ) : a.payloads ≠ [] := by
  induction a with
  | single p => exact List.cons_ne_nil _ _
  | join a b iha _ => exact fun h => iha (List.append_eq_nil_iff.mp h).1

lemma payloads_followedBy (a : Arrangement δ) (rest : List (Payload δ)) :
    (a.followedBy rest).payloads = a.payloads ++ rest := by
  unfold followedBy
  induction rest generalizing a with
  | nil => exact (List.append_nil _).symm
  | cons p rest ih => rw [List.foldl_cons, ih, payloads, payloads, List.append_assoc,
      List.singleton_append]

lemma sum_followedBy [Add δ] (a : Arrangement δ) (rest : List (Payload δ)) :
    (a.followedBy rest).sum = a.sum >>= fun p => Payload.combineAll p rest := by
  unfold followedBy Payload.combineAll
  induction rest generalizing a with
  | nil =>
    rw [List.foldl_nil]
    cases a.sum <;> rfl
  | cons p rest ih =>
    rw [List.foldl_cons, ih, sum]
    cases a.sum with
    | error e => rfl
    | ok q => rfl

end Arrangement

section Sums

variable {δ : Type} [Scalar δ]

/-- The gradients of all payloads have the same names and shapes. -/
def SameShapes (ps : List (Payload δ)) : Prop :=
  ∀ p ∈ ps, ∀ q ∈ ps, p.gradients.shapes.Perm q.gradients.shapes

omit [Scalar δ] in
lemma sameShapes_perm {ps qs : List (Payload δ)} (hperm : ps.Perm qs) (h : SameShapes ps) :
    SameShapes qs :=
  fun p hp q hq => h p (hperm.mem_iff.mpr hp) q (hperm.mem_iff.mpr hq)

lemma sameShapes_of_sums {ps : List (Payload δ)} {q : Payload δ} (h : Sums ps q) : SameShapes ps :=
  fun p hp r hr => (h.shapes p hp).trans (h.shapes r hr).symm

variable [ExactSum δ]

/-- An arrangement gives the sums of its payloads, or they are refused because their gradients do
not have the same names and shapes. -/
theorem sum_cases (a : Arrangement δ) (hnames : ∀ p ∈ a.payloads, p.gradients.names.Nodup) :
    (∃ q, a.sum = .ok q ∧ Sums a.payloads q) ∨
      ¬SameShapes a.payloads ∧ ∃ e, a.sum = .error e ∧ e.kind = .invalidValue := by
  induction a with
  | single p => exact Or.inl ⟨p, rfl, Sums.single (hnames p List.mem_cons_self)⟩
  | join a b iha ihb =>
    rw [Arrangement.payloads, List.forall_mem_append] at hnames
    have hleft : ∀ {r}, r ∈ a.payloads → r ∈ (a.join b).payloads := List.mem_append_left _
    have hright : ∀ {r}, r ∈ b.payloads → r ∈ (a.join b).payloads := List.mem_append_right _
    unfold Arrangement.sum
    rcases iha hnames.1 with ⟨p, hp, hsumsP⟩ | ⟨hunlike, e, he, hkind⟩
    · rcases ihb hnames.2 with ⟨q, hq, hsumsQ⟩ | ⟨hunlike, e, he, hkind⟩
      · rw [hp, hq, ok_bind, ok_bind]
        have hcombine : ∀ r, p.combine q = .ok r ↔ _ := fun r => combine_eq_ok hsumsP.names hsumsQ.names
        by_cases hshapes : p.gradients.shapes.Perm q.gradients.shapes
        · exact Or.inl ⟨_, (hcombine _).mpr ⟨hshapes, rfl⟩, hsumsP.join hsumsQ hshapes⟩
        · right
          constructor
          · intro hsame
            obtain ⟨r, hr⟩ := List.exists_mem_of_ne_nil _ a.payloads_ne_nil
            obtain ⟨s, hs⟩ := List.exists_mem_of_ne_nil _ b.payloads_ne_nil
            have hrs := hsame r (hleft hr) s (hright hs)
            exact hshapes (((hsumsP.shapes r hr).symm.trans hrs).trans (hsumsQ.shapes s hs))
          · cases hresult : p.combine q with
            | error e => exact ⟨e, rfl, combine_error hresult⟩
            | ok r => exact absurd ((hcombine r).mp hresult).1 hshapes
      · rw [hp, he]
        exact Or.inr ⟨fun h => hunlike fun r hr s hs => h r (hright hr) s (hright hs), e, rfl, hkind⟩
    · rw [he]
      exact Or.inr ⟨fun h => hunlike fun r hr s hs => h r (hleft hr) s (hleft hs), e, rfl, hkind⟩

end Sums

section Rounds

variable {α δ : Type} [Scalar α] [Scalar δ] [Precision α δ]

/-- What a round leaves of a job if it combines its payloads in a given way. -/
def arranged (job : Job α) (a : Arrangement δ) : JobOutcome α δ :=
  let summed : Except Error (Totals δ × Parameters α) := do
    let p ← a.sum
    return (p.totals,
      ← Job.meanGradients job.model.layout.shapes (a.payloads.length == 1) p)
  match summed with
  | .error e => ⟨job, .error e⟩
  | .ok (totals, gradients) =>
    ⟨(job.move gradients).1, (job.move gradients).2.map fun _ => totals⟩

/-- What a round broadcasts. -/
def broadcastOf (i : Nat) (o : JobOutcome α δ) : Except Error (Broadcast α δ) :=
  o.result.map fun totals => ⟨o.job.model.parameters, totals, i⟩

lemma round_broadcastOf {m : Master} {job : Job Float32} {i : Nat}
    (hstate : m.state = .aggregating job i) (results : List (Payload Float)) :
    (m.round results).result = broadcastOf i (job.aggregate i results) := by
  cases hagg : job.aggregate i results with
  | mk next result =>
    cases result with
    | ok totals =>
      rw [round_of_aggregate hstate hagg]
      rfl
    | error e =>
      rw [round_of_aggregate_error hstate hagg]
      split <;> rfl

/-- A round combines its payloads from the left. -/
theorem aggregate_eq_arranged (job : Job α) (i : Nat) (first : Payload δ) (rest : List (Payload δ)) :
    job.aggregate i (first :: rest) =
      arranged job ((Arrangement.single first).followedBy rest) := by
  have hsum := Arrangement.sum_followedBy (.single first) rest
  have hpayloads := Arrangement.payloads_followedBy (.single first) rest
  unfold arranged Job.aggregate
  rw [hsum, hpayloads]
  rfl

variable {layout : List (ParamName × List Nat)} {alone : Bool} {p q : Payload δ}

lemma meanGradients_congr (hq : q.gradients.names.Nodup) (hperm : p.gradients.Perm q.gradients)
    (htotals : p.totals = q.totals) (gradients : Parameters α) :
    Job.meanGradients layout alone p = .ok gradients ↔
      Job.meanGradients layout alone q = .ok gradients := by
  have hnames : ∀ n, n ∈ p.gradients.names ↔ n ∈ q.gradients.names :=
    fun n => (hperm.map Prod.fst).mem_iff
  rw [meanGradients_eq_ok, meanGradients_eq_ok, htotals]
  simp only [hnames, tensor_of_perm hq hperm]

/-- An arrangement has a sum with mean gradients that fit the model of a job. -/
def Gives (job : Job α) (a : Arrangement δ) (p : Payload δ) (gradients : Parameters α) : Prop :=
  a.sum = .ok p ∧
    Job.meanGradients job.model.layout.shapes (a.payloads.length == 1) p = .ok gradients

variable {job : Job α} {a b : Arrangement δ} {gradients : Parameters α}

lemma arranged_of_gives (h : Gives job a p gradients) :
    arranged job a =
      ⟨(job.move gradients).1, (job.move gradients).2.map fun _ => p.totals⟩ := by
  unfold arranged
  rw [h.1, ok_bind, h.2]
  rfl

lemma arranged_of_not_gives [ExactSum δ] (hnames : ∀ p ∈ a.payloads, p.gradients.names.Nodup)
    (h : ∀ p gradients, ¬Gives job a p gradients) :
    ∃ e, e.kind = .invalidValue ∧ arranged job a = ⟨job, .error e⟩ := by
  rcases sum_cases a hnames with ⟨p, hp, -⟩ | ⟨-, e, he, hkind⟩
  · cases hmean : (Job.meanGradients job.model.layout.shapes (a.payloads.length == 1) p :
        Except Error (Parameters α)) with
    | ok gradients => exact absurd ⟨hp, hmean⟩ (h p gradients)
    | error e =>
      refine ⟨e, meanGradients_error hmean, ?_⟩
      unfold arranged
      rw [hp, ok_bind, hmean]
      rfl
  · refine ⟨e, hkind, ?_⟩
    unfold arranged
    rw [he]
    rfl

/-- What one arrangement of payloads gives, every other one gives as well. -/
theorem gives_perm [ExactSum δ] (hperm : a.payloads.Perm b.payloads)
    (hnames : ∀ p ∈ b.payloads, p.gradients.names.Nodup) (h : Gives job b q gradients) :
    ∃ p, Gives job a p gradients ∧ p.gradients.Perm q.gradients ∧ p.totals = q.totals ∧
      p.iteration = q.iteration := by
  rcases sum_cases b hnames with ⟨q', hq', hsumsQ⟩ | ⟨-, e, he, -⟩
  · cases hq'.symm.trans h.1
    rcases sum_cases a fun p hp => hnames p (hperm.mem_iff.mp hp) with
      ⟨p, hp, hsumsP⟩ | ⟨hunlike, -⟩
    · obtain ⟨hgradients, htotals, hiteration⟩ := hsumsP.unique hsumsQ hperm a.payloads_ne_nil
      refine ⟨p, ⟨hp, ?_⟩, hgradients, htotals, hiteration⟩
      rw [hperm.length_eq]
      exact (meanGradients_congr hsumsQ.names hgradients htotals gradients).mpr h.2
    · exact absurd (sameShapes_perm hperm.symm (sameShapes_of_sums hsumsQ)) hunlike
  · rw [h.1] at he
    cases he

omit [Scalar α] [Scalar δ] [Precision α δ] in
lemma broadcastOf_map (i : Nat) (job : Job α) (result : Except Error Unit) (totals : Totals δ) :
    broadcastOf i (⟨job, result.map fun _ => totals⟩ : JobOutcome α δ) =
      result.map fun _ => ⟨job.model.parameters, totals, i⟩ := by
  cases result <;> rfl

/-- With exact sums, the outcome of a round depends neither on the order of its payloads nor on the
way in which they are grouped. Either they are refused in every arrangement, or all arrangements
give the same sums up to the order of the gradients, the same mean gradients, and with them the same
step, the same weights and the same broadcast. Names of gradients are the keys of a map, so they are
distinct. -/
theorem aggregate_arrangements [ExactSum δ] (job : Job α) (i : Nat) (first : Payload δ)
    (rest : List (Payload δ)) (hnames : ∀ p ∈ first :: rest, p.gradients.names.Nodup) :
    (∃ a : Arrangement δ, a.payloads = first :: rest ∧
      job.aggregate i (first :: rest) = arranged job a) ∧
    ((∀ a : Arrangement δ, a.payloads.Perm (first :: rest) →
      ∃ e, e.kind = .invalidValue ∧ arranged job a = ⟨job, .error e⟩) ∨
    ∃ (q : Payload δ) (gradients : Parameters α), ∀ a : Arrangement δ,
      a.payloads.Perm (first :: rest) →
      (∃ p, a.sum = .ok p ∧ p.gradients.Perm q.gradients ∧ p.totals = q.totals ∧
        p.iteration = q.iteration ∧
        Job.meanGradients job.model.layout.shapes (a.payloads.length == 1) p = .ok gradients) ∧
      arranged job a =
        ⟨(job.move gradients).1, (job.move gradients).2.map fun _ => q.totals⟩ ∧
      broadcastOf i (arranged job a) = (job.move gradients).2.map fun _ =>
        ⟨(job.move gradients).1.model.parameters, q.totals, i⟩) := by
  have hleft : ((Arrangement.single first).followedBy rest).payloads = first :: rest :=
    Arrangement.payloads_followedBy (.single first) rest
  have hround := aggregate_eq_arranged job i first rest
  generalize (Arrangement.single first).followedBy rest = left at hleft hround
  rw [← hleft] at hnames hround ⊢
  refine ⟨⟨left, rfl, hround⟩, ?_⟩
  by_cases hgives : ∃ q gradients, Gives job left q gradients
  · obtain ⟨q, gradients, hq⟩ := hgives
    refine Or.inr ⟨q, gradients, fun a ha => ?_⟩
    obtain ⟨p, hp, hgradients, htotals, hiteration⟩ := gives_perm ha hnames hq
    have harranged := arranged_of_gives hp
    rw [htotals] at harranged
    refine ⟨⟨p, hp.1, hgradients, htotals, hiteration, hp.2⟩, harranged, ?_⟩
    rw [harranged, broadcastOf_map]
  · refine Or.inl fun a ha => ?_
    have hnamesA : ∀ p ∈ a.payloads, p.gradients.names.Nodup :=
      fun p hp => hnames p (ha.mem_iff.mp hp)
    refine arranged_of_not_gives hnamesA fun p gradients hp => hgives ?_
    obtain ⟨q, hq, -⟩ := gives_perm ha.symm hnamesA hp
    exact ⟨q, gradients, hq⟩

end Rounds

section Sample

/-- A job of a model without columns, which moves by half of the mean gradient. -/
def plainJob : Job Float32 where
  model := Model.blank ⟨[], [], [], [], [], 0, [], .plain 0⟩
  optimizer := ⟨.sgd, .real 0.5, 0, []⟩

/-- Gradients of one worker over two records, in the order of the model. -/
def firstReport : Payload ℚ where
  gradients := [(.wideBias, ⟨[1], [1 / 3], rfl⟩), (.deepWeight 0, ⟨[1, 0], [], rfl⟩),
    (.deepBias 0, ⟨[1], [1 / 7], rfl⟩)]
  totals := ⟨2, 0, 1 / 5, 0⟩
  iteration := 1

/-- Gradients of another worker over one record, in another order. -/
def secondReport : Payload ℚ where
  gradients := [(.deepBias 0, ⟨[1], [-2], rfl⟩), (.wideBias, ⟨[1], [5], rfl⟩),
    (.deepWeight 0, ⟨[1, 0], [], rfl⟩)]
  totals := ⟨1, 1, 1 / 11, 4⟩
  iteration := 1

lemma aggregate_reports_isOk :
    (plainJob.aggregate 1 [firstReport, secondReport]).result.isOk = true := by
  decide +kernel

theorem aggregate_reports :
    (∀ p ∈ [firstReport, secondReport], p.gradients.names.Nodup) ∧
    arranged plainJob (.join (.single secondReport) (.single firstReport)) =
      plainJob.aggregate 1 [firstReport, secondReport] ∧
    (plainJob.aggregate 1 [firstReport, secondReport]).result.isOk = true := by
  have hnames : ∀ p ∈ [firstReport, secondReport], p.gradients.names.Nodup := by decide
  refine ⟨hnames, ?_, aggregate_reports_isOk⟩
  obtain ⟨⟨a, ha, hround⟩, hall⟩ := aggregate_arrangements plainJob 1 firstReport [secondReport] hnames
  rcases hall with hrefused | ⟨q, gradients, hsame⟩
  · obtain ⟨e, -, he⟩ := hrefused a (List.Perm.of_eq ha)
    have hok := aggregate_reports_isOk
    rw [hround, he] at hok
    cases hok
  · rw [hround, (hsame a (List.Perm.of_eq ha)).2.1]
    exact (hsame (.join (.single secondReport) (.single firstReport)) (List.Perm.swap _ _ _)).2.1

end Sample

end WideDeep.Proofs
