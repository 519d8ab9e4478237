import Mathlib.Tactic
import WideDeep.Proofs.ConfiguredColumns
import WideDeep.Proofs.DatasetParts
import WideDeep.Proofs.PayloadSums
import WideDeep.Proofs.PlannedLayouts
import WideDeep.Proofs.SummedGradients

/-!
# Rounds over partitions

A worker sends sums over its records. When additions are exact, these sums depend neither on its
batches nor on how the records are split among workers: the payloads of the parts are combined into
what one worker sends for all records.
-/

namespace WideDeep.Proofs

section Widening

/-- Wider numbers in which no sum is rounded. -/
class ExactWidening (α δ : Type) [Scalar α] [Scalar δ] [Precision α δ] : Prop where
  widen_zero : (Precision.widen (0 : α) : δ) = 0
  widen_add : ∀ x y : α, (Precision.widen (x + y) : δ) = Precision.widen x + Precision.widen y

instance : Precision ℚ ℚ where
  widen x := x
  narrow x := x

instance : ExactWidening ℚ ℚ where
  widen_zero := rfl
  widen_add _ _ := rfl

variable {α δ : Type} [Scalar α] [Scalar δ] [Precision α δ] [ExactSum α] [ExactSum δ]
  [ExactWidening α δ]

lemma widen_total (xs : List α) :
    (Precision.widen (total xs) : δ) = total (xs.map Precision.widen) := by
  induction xs with
  | nil => exact ExactWidening.widen_zero
  | cons x rest ih => rw [total_cons, ExactWidening.widen_add, ih, List.map_cons, total_cons]

omit [ExactSum α] [ExactSum δ] in
lemma widen_combine (s t : Tensor α) : (s.combine (· + ·) t).map (Precision.widen : α → δ) =
    (s.map Precision.widen).combine (· + ·) (t.map Precision.widen) := by
  by_cases h : s.shape = t.shape
  · have hwide : (s.map Precision.widen : Tensor δ).shape = (t.map Precision.widen : Tensor δ).shape := h
    rw [Tensor.combine, dif_pos h, Tensor.combine, dif_pos hwide]
    unfold Tensor.zipWith Tensor.map
    simp only [List.map_zipWith, List.zipWith_map, ExactWidening.widen_add]
  · have hwide : (s.map Precision.widen : Tensor δ).shape ≠ (t.map Precision.widen : Tensor δ).shape := h
    rw [Tensor.combine, dif_neg h, Tensor.combine, dif_neg hwide]

end Widening

section Records

variable {α : Type} (δ : Type) [Scalar α] [Scalar δ] [Precision α δ]

/-- The sum of a number of each record, in wider numbers. -/
def sumOver (f : Sample α → α) (xs : List (Sample α)) : δ :=
  total (xs.map fun s => Precision.widen (f s))

def lossOf (m : Model α) (s : Sample α) : α :=
  Loss.weighted (m.logit s.inputs) s.target s.weight

/-- The payload for records to train on and records to validate on: gradient, weights and losses as
sums over the records. -/
def payloadOf (m : Model α) (iteration : Int) (train validation : List (Sample α)) : Payload δ where
  gradients := (m.gradient train).mapValues Precision.widen
  totals := ⟨sumOver δ (·.weight) train, sumOver δ (·.weight) validation,
    sumOver δ (lossOf m) train, sumOver δ (lossOf m) validation⟩
  iteration := iteration + 1

/-- The records to validate on; none if there is no such dataset. -/
def validationSamples (validation : Option (Dataset α)) : List (Sample α) :=
  validation.elim [] (·.samples)

/-- The payload for the share of a worker. -/
def sharePayload (m : Model α) (iteration : Int) (share : Dataset α × Option (Dataset α)) : Payload δ :=
  payloadOf δ m iteration share.1.samples (validationSamples share.2)

variable {δ} {m : Model α} {f : Sample α → α} {xs ys us vs : List (Sample α)} {iteration : Int}

lemma gradients_payloadOf : (payloadOf δ m iteration xs us).gradients =
    m.layout.shapes.map fun e => (e.1, (gradientTensor m xs e).map Precision.widen) := by
  unfold payloadOf Parameters.mapValues
  dsimp only
  rw [gradient_eq, List.map_map]
  rfl

lemma shapes_payloadOf : (payloadOf δ m iteration xs us).gradients.shapes = m.layout.shapes := by
  rw [gradients_payloadOf]
  unfold Parameters.shapes
  rw [List.map_map]
  refine (List.map_congr_left fun e _ => ?_).trans (List.map_id _)
  exact congrArg (Prod.mk e.1) (shape_gradientTensor m xs e)

lemma names_payloadOf (h : DistinctTables m.layout) :
    (payloadOf δ m iteration xs us).gradients.names.Nodup := by
  rw [← names_eq_shapes, shapes_payloadOf]
  exact shapes_nodup h

/-- Records that are missing have gradients of zeros. -/
theorem gradients_of_none [ExactWidening α δ] : (payloadOf δ m iteration [] us).gradients =
    m.layout.shapes.map fun e => (e.1, Tensor.zeros e.2) := by
  unfold payloadOf Parameters.mapValues
  dsimp only
  rw [gradient_nil, List.map_map]
  refine List.map_congr_left fun e _ => congrArg (Prod.mk e.1) ?_
  unfold Tensor.zeros Tensor.replicate Tensor.map
  simp only [List.map_replicate, ExactWidening.widen_zero]

variable [ExactSum δ]

omit [Scalar α] in
lemma sumOver_append : sumOver δ f (xs ++ ys) = sumOver δ f xs + sumOver δ f ys := by
  unfold sumOver
  rw [List.map_append, total_append]

variable [ExactSum α] [ExactWidening α δ]

/-- A sum over batches is the sum over their records. -/
theorem sumBatches_eq (f : Sample α → α) (batches : List (List (Sample α))) :
    Worker.sumBatches δ (fun b => total (b.map f)) batches = sumOver δ f batches.flatten := by
  induction batches using List.reverseRecOn with
  | nil => rfl
  | append_singleton batches b ih =>
    unfold Worker.sumBatches at ih ⊢
    rw [List.foldl_append, ih, List.flatten_append, sumOver_append, List.foldl_cons, List.foldl_nil,
      widen_total, List.map_map, List.flatten_singleton]
    rfl

/-- The payloads of two groups of records are joined into that of all of them. -/
theorem joined_payloads (hl : Ready m.layout) (hx : AllTraced m xs) (hy : AllTraced m ys) :
    joined (payloadOf δ m iteration xs us) (payloadOf δ m iteration ys vs) =
      payloadOf δ m iteration (xs ++ ys) (us ++ vs) := by
  have hgradients : (payloadOf δ m iteration xs us).gradients.combine (· + ·)
      (payloadOf δ m iteration ys vs).gradients =
        (payloadOf δ m iteration (xs ++ ys) (us ++ vs)).gradients := by
    rw [gradients_payloadOf, gradients_payloadOf, combine_map (shapes_nodup hl.distinct)]
    unfold payloadOf Parameters.mapValues
    dsimp only
    rw [gradient_append hl hx hy, gradient_eq, gradient_eq,
      combine_map (shapes_nodup hl.distinct), List.map_map]
    exact List.map_congr_left fun e _ => congrArg (Prod.mk e.1) (widen_combine _ _).symm
  have htotals : (payloadOf δ m iteration xs us).totals.add (payloadOf δ m iteration ys vs).totals =
      (payloadOf δ m iteration (xs ++ ys) (us ++ vs)).totals := by
    unfold payloadOf Totals.add
    dsimp only
    rw [sumOver_append, sumOver_append, sumOver_append, sumOver_append]
  unfold joined
  rw [hgradients, htotals]
  unfold payloadOf
  rw [if_neg (lt_irrefl _)]

/-- The payloads of several shares are combined into that of all their records. -/
theorem combineAll_payloads (hl : Ready m.layout) {shares : List (Dataset α × Option (Dataset α))}
    (hx : AllTraced m xs) (hshares : ∀ p ∈ shares, AllTraced m p.1.samples) :
    Payload.combineAll (payloadOf δ m iteration xs us) (shares.map (sharePayload δ m iteration)) =
      .ok (payloadOf δ m iteration (xs ++ shares.flatMap (·.1.samples))
        (us ++ shares.flatMap fun p => validationSamples p.2)) := by
  induction shares generalizing xs us with
  | nil =>
    rw [List.flatMap_nil, List.flatMap_nil, List.append_nil, List.append_nil]
    rfl
  | cons p rest ih =>
    obtain ⟨hp, hrest⟩ := List.forall_mem_cons.mp hshares
    have hfirst : (payloadOf δ m iteration xs us).combine (sharePayload δ m iteration p) =
        .ok (payloadOf δ m iteration (xs ++ p.1.samples) (us ++ validationSamples p.2)) := by
      refine (combine_eq_ok (names_payloadOf hl.distinct) (names_payloadOf hl.distinct)).mpr ⟨?_, ?_⟩
      · rw [shapes_payloadOf, shapes_payloadOf]
      · exact (joined_payloads hl hx hp).symm
    unfold Payload.combineAll at ih ⊢
    rw [List.map_cons, List.foldlM_cons, hfirst, ok_bind, List.flatMap_cons, List.flatMap_cons,
      ← List.append_assoc, ← List.append_assoc]
    exact ih (List.forall_mem_append.mpr ⟨hx, hp⟩) hrest

end Records

section Workers

variable {α δ : Type} [Scalar α] [Scalar δ] [Precision α δ] {c : ModelConfig} {l : Layout}
  {weights : Parameters α} {train : Dataset α} {validation : Option (Dataset α)}
  {size iteration : Int}

/-- What a new worker with such records sends in a round. -/
def sends (δ : Type) [Scalar δ] [Precision α δ] (c : ModelConfig) (weights : Parameters α)
    (iteration : Int) (share : Dataset α × Option (Dataset α)) (size : Int) :
    Except Error (Payload δ) := do
  (← Worker.make c share.1 share.2 size).compute δ (some weights) iteration

omit [Scalar α] in
lemma validationSamples_filter (validation : Option (Dataset α)) :
    validationSamples (validation.filter fun d => 0 < d.size) = validationSamples validation := by
  cases validation with
  | none => rfl
  | some d =>
    by_cases h : 0 < d.size
    · rw [Option.filter_some, if_pos (decide_eq_true h)]
    · rw [Option.filter_some, if_neg (by simpa using h)]
      exact (List.eq_nil_of_length_eq_zero (Nat.eq_zero_of_not_pos h)).symm

omit [Scalar α] in
/-- A new worker has the records that it was given. -/
lemma exists_worker (h : c.layout = .ok l) (hsize : 0 < size) (train : Dataset α)
    (validation : Option (Dataset α)) :
    ∃ w, Worker.make c train validation size = .ok w ∧ w.layout = l ∧ w.train = train ∧
      (∀ d ∈ w.validation, d ∈ validation) ∧
      validationSamples w.validation = validationSamples validation ∧ 0 < w.batchSize := by
  refine ⟨⟨l, train, validation.filter fun d => 0 < d.size, size.toNat⟩, ?_, rfl, rfl, ?_,
    validationSamples_filter validation, Int.pos_iff_toNat_pos.mp hsize⟩
  · unfold Worker.make
    rw [h, ok_bind, if_neg (not_le.mpr hsize)]
    rfl
  · exact fun d hd => (Option.mem_filter_iff.mp hd).1

lemma allTraced_of_fitting {m : Model α} (hl : Ready m.layout) (h : Fitting m.layout train) :
    AllTraced m train.samples := fun s hs => traced_of_ready hl (h.dense s hs) (h.embed s hs)

variable [ExactSum α] [ExactSum δ] [ExactWidening α δ]

lemma measure_eq {w : Worker α} (hsize : 0 < w.batchSize) (m : Model α) (d : Dataset α) :
    w.measure δ m d = (sumOver δ (lossOf m) d.samples, sumOver δ (·.weight) d.samples) := by
  unfold Worker.measure
  dsimp only
  rw [sumBatches_eq, batches_flatten hsize]
  refine congrArg (Prod.mk · _) ?_
  rw [← batches_flatten hsize]
  exact sumBatches_eq (lossOf m) _

/-- A worker sends the payload of its records. -/
theorem compute_eq {w : Worker α} (hl : Ready w.layout)
    (hweights : Parameters.check w.layout.shapes weights = .ok ())
    (htrain : Fitting w.layout w.train) (hvalidation : ∀ d ∈ w.validation, Fitting w.layout d)
    (hsize : 0 < w.batchSize) : w.compute δ (some weights) iteration =
      .ok (payloadOf δ (Model.ofParameters w.layout weights) iteration w.train.samples
        (validationSamples w.validation)) := by
  have hload : (Model.blank w.layout).load weights = .ok (Model.ofParameters w.layout weights) :=
    load_eq_ok.mpr ⟨hweights, rfl⟩
  have hgradients : Worker.sumGradients (Model.ofParameters w.layout weights)
      (w.train.batches w.batchSize) =
        (Model.ofParameters w.layout weights).gradient w.train.samples := by
    have htraced := allTraced_of_fitting (m := Model.ofParameters w.layout weights) hl htrain
    rw [← batches_flatten hsize] at htraced ⊢
    exact sumGradients_eq hl htraced
  unfold Worker.compute
  dsimp only
  rw [hload, ok_bind, checkData_of_fitting hl htrain, ok_bind, hgradients, measure_eq hsize]
  cases hv : w.validation with
  | none => rfl
  | some d =>
    dsimp only
    rw [checkData_of_fitting hl (hvalidation d hv), ok_bind, measure_eq hsize]
    rfl

/-- A new worker for records that fit its layout sends their payload, whatever its batch size is. -/
theorem sends_eq {share : Dataset α × Option (Dataset α)} (hlayout : c.layout = .ok l)
    (hweights : Parameters.check l.shapes weights = .ok ()) (htrain : Fitting l share.1)
    (hvalidation : ∀ d ∈ share.2, Fitting l d) (hsize : 0 < size) :
    sends δ c weights iteration share size =
      .ok (sharePayload δ (Model.ofParameters l weights) iteration share) := by
  obtain ⟨w, hmake, rfl, htrained, hkept, hsamples, hbatch⟩ :=
    exists_worker hlayout hsize share.1 share.2
  unfold sends sharePayload
  rw [hmake, ok_bind, ← hsamples, ← htrained]
  exact compute_eq (ready_of_layout hlayout) hweights (htrained ▸ htrain)
    (fun d hd => hvalidation d (hkept d hd)) hbatch

end Workers

section Shares

variable {α : Type} {l : Layout} {d p train : Dataset α} {validation : Option (Dataset α)} {k : Int}

lemma split_parts {parts : List (Dataset α)} (hk : 1 ≤ k) (hsize : d.size < 2 ^ 64)
    (h : d.split k = .ok parts) : parts.length = k.toNat ∧ parts.flatMap (·.samples) = d.samples ∧
      ∀ p ∈ parts, ∃ samples, p = d.withSamples samples := by
  have hmost : k < Dataset.mostCuts := by
    by_contra hmany
    unfold Dataset.split at h
    rw [decide_eq_true (not_lt.mp hmany), Bool.or_true] at h
    cases h
  obtain ⟨others, hothers, hparts⟩ := split_eq_ok hk hmost hsize
  cases h.symm.trans hothers
  exact hparts

/-- The parts of normalized records are normalized. -/
lemma normalized_of_part {parts : List (Dataset α)} (h : Normalized l d)
    (hflat : parts.flatMap (·.samples) = d.samples)
    (hmade : ∀ p ∈ parts, ∃ samples, p = d.withSamples samples) (hp : p ∈ parts) :
    Normalized l p := by
  have hsub : p.samples.Sublist d.samples := by
    rw [← hflat, List.flatMap_def]
    exact List.sublist_flatten_of_mem (List.mem_map_of_mem hp)
  obtain ⟨samples, rfl⟩ := hmade p hp
  exact h.of_subset (fun s hs => hsub.subset hs) hsub.length_le

/-- There is a share for each worker, unless the workers are too many to be listed. -/
lemma exists_shares (hk : 1 ≤ k) (hmost : k < Dataset.mostCuts) (train : Dataset α)
    (validation : Option (Dataset α)) :
    ∃ shares, Worker.shares k train validation = .ok shares ∧ shares.length = k.toNat := by
  obtain ⟨validationParts, hvalidationParts, hlength⟩ :
      ∃ parts, Worker.validationShares k validation = .ok parts ∧ parts.length = k.toNat := by
    cases validation with
    | none => exact ⟨_, rfl, List.length_replicate⟩
    | some d =>
      refine ⟨(d.splitWith (Dataset.evenCut d.size k.toNat) k.toNat).map some, ?_, ?_⟩
      · rw [Worker.validationShares, split_eq d (by omega) hmost]
        rfl
      · rw [List.length_map, length_splitWith]
  refine ⟨(train.splitWith (Dataset.evenCut train.size k.toNat) k.toNat).zip validationParts, ?_, ?_⟩
  · unfold Worker.shares
    rw [split_eq train (by omega) hmost, ok_bind, hvalidationParts]
    rfl
  · rw [List.length_zip, length_splitWith, hlength, min_self]

/-- The shares of validation records are as many as the workers, normalized, and hold the records one
after the other. -/
lemma validationShares_eq_ok {parts : List (Option (Dataset α))} (hk : 1 ≤ k)
    (hvalidation : ∀ d ∈ validation, Normalized l d)
    (h : Worker.validationShares k validation = .ok parts) :
    parts.length = k.toNat ∧ parts.flatMap validationSamples = validationSamples validation ∧
      ∀ v ∈ parts, ∀ d ∈ v, Normalized l d := by
  cases validation with
  | none =>
    cases h
    refine ⟨List.length_replicate, List.flatMap_eq_nil_iff.mpr fun v hv => ?_, fun v hv d hd => ?_⟩
    · rw [List.eq_of_mem_replicate hv]
      rfl
    · rw [List.eq_of_mem_replicate hv] at hd
      cases hd
  | some d =>
    obtain ⟨given, hgiven, rfl⟩ := map_eq_ok.mp h
    have hd := hvalidation d rfl
    obtain ⟨hcount, hflat, hmade⟩ := split_parts hk (size_lt hd) hgiven
    refine ⟨(List.length_map _).trans hcount, ?_, fun v hv e he => ?_⟩
    · rw [List.flatMap_map]
      exact hflat
    · obtain ⟨p, hp, rfl⟩ := List.mem_map.mp hv
      cases he
      exact normalized_of_part hd hflat hmade hp

/-- The shares of workers are as many as the workers, normalized, and hold the records one after the
other. -/
theorem shares_eq_ok {parts : List (Dataset α × Option (Dataset α))} (hk : 1 ≤ k)
    (htrain : Normalized l train) (hvalidation : ∀ d ∈ validation, Normalized l d)
    (h : Worker.shares k train validation = .ok parts) :
    parts.length = k.toNat ∧ parts.flatMap (·.1.samples) = train.samples ∧
      parts.flatMap (fun p => validationSamples p.2) = validationSamples validation ∧
      ∀ p ∈ parts, Normalized l p.1 ∧ ∀ d ∈ p.2, Normalized l d := by
  obtain ⟨trainParts, htrainParts, h⟩ := bind_eq_ok.mp h
  obtain ⟨validationParts, hvalidationParts, h⟩ := bind_eq_ok.mp h
  cases h
  obtain ⟨hcount, hflat, hmade⟩ := split_parts hk (size_lt htrain) htrainParts
  obtain ⟨hvalidCount, hvalidFlat, hvalid⟩ := validationShares_eq_ok hk hvalidation hvalidationParts
  have hsame : trainParts.length = validationParts.length := hcount.trans hvalidCount.symm
  have hfirst : (trainParts.zip validationParts).map Prod.fst = trainParts :=
    List.map_fst_zip hsame.le
  have hsecond : (trainParts.zip validationParts).map Prod.snd = validationParts :=
    List.map_snd_zip hsame.ge
  refine ⟨?_, ?_, ?_, fun p hp => ?_⟩
  · rw [List.length_zip, ← hsame, min_self, hcount]
  · rw [← hflat]
    conv_rhs => rw [← hfirst, List.flatMap_map]
  · rw [← hvalidFlat]
    conv_rhs => rw [← hsecond, List.flatMap_map]
  · obtain ⟨hleft, hright⟩ := List.of_mem_zip hp
    exact ⟨normalized_of_part htrain hflat hmade hleft, hvalid _ hright⟩

end Shares

section Rounds

variable {α δ : Type} [Scalar α] [Scalar δ] [Precision α δ] [ExactSum α] [ExactSum δ]
  [ExactWidening α δ] {c : ModelConfig} {l : Layout} {weights : Parameters α} {train : Dataset α}
  {validation : Option (Dataset α)} {iteration k : Int}

/-- Workers with normalized shares send the payloads of these, whatever their batch sizes are. -/
theorem mapM_sends_eq {parts : List (Dataset α × Option (Dataset α))} {sizes : List Int}
    (hlayout : c.layout = .ok l) (hweights : Parameters.check l.shapes weights = .ok ())
    (hnormalized : ∀ p ∈ parts, Normalized l p.1 ∧ ∀ d ∈ p.2, Normalized l d)
    (hsizes : sizes.length = parts.length) (hpositive : ∀ n ∈ sizes, 0 < n) :
    (parts.zip sizes).mapM (fun p => sends δ c weights iteration p.1 p.2) =
      .ok (parts.map (sharePayload δ (Model.ofParameters l weights) iteration)) := by
  have hzip : (parts.zip sizes).map Prod.fst = parts := List.map_fst_zip hsizes.ge
  conv_rhs => rw [← hzip, List.map_map]
  refine mapM_ok_of_forall fun p hp => ?_
  obtain ⟨hshare, hsize⟩ := List.of_mem_zip hp
  obtain ⟨htrain, hvalidation⟩ := hnormalized p.1 hshare
  exact sends_eq hlayout hweights htrain.fitting (fun d hd => (hvalidation d hd).fitting)
    (hpositive p.2 hsize)

lemma snd_of_mem_zip_map {β γ : Type} {f : β → γ} {xs : List β} {p : β × γ}
    (h : p ∈ xs.zip (xs.map f)) : p.2 = f p.1 := by
  induction xs with
  | nil => cases h
  | cons x rest ih =>
    rcases List.mem_cons.mp h with rfl | hrest
    · rfl
    · exact ih hrest

/-- A split among workers does not change a round. Whatever the batch sizes are, the payloads of the
parts are combined into what one worker sends for all records; a part without training records has
gradients of zeros. -/
theorem combineAll_shares (hlayout : c.layout = .ok l)
    (hweights : Parameters.check l.shapes weights = .ok ()) (htrain : Normalized l train)
    (hvalidation : ∀ d ∈ validation, Normalized l d) (hk : 1 ≤ k) :
    ∃ result : Payload δ,
      (∀ size, 0 < size → sends δ c weights iteration (train, validation) size = .ok result) ∧
      (k < Dataset.mostCuts → ∃ parts, Worker.shares k train validation = .ok parts) ∧
      ∀ parts, Worker.shares k train validation = .ok parts → parts.length = k.toNat ∧
        ∀ sizes : List Int, sizes.length = parts.length → (∀ n ∈ sizes, 0 < n) →
          ∃ first rest,
            (parts.zip sizes).mapM (fun p => sends δ c weights iteration p.1 p.2) =
              .ok (first :: rest) ∧
            Payload.combineAll first rest = .ok result ∧
            ∀ p ∈ parts.zip (first :: rest), p.1.1.samples = [] →
              p.2.gradients = l.shapes.map fun e => (e.1, Tensor.zeros e.2) := by
  have hl := ready_of_layout hlayout
  refine ⟨sharePayload δ (Model.ofParameters l weights) iteration (train, validation),
    fun size hsize => sends_eq hlayout hweights htrain.fitting
      (fun d hd => (hvalidation d hd).fitting) hsize,
    fun hmost => (exists_shares hk hmost train validation).imp fun _ h => h.1,
    fun parts hparts => ?_⟩
  obtain ⟨hcount, hflat, hvalidFlat, hnormalized⟩ := shares_eq_ok hk htrain hvalidation hparts
  refine ⟨hcount, fun sizes hsizes hpositive => ?_⟩
  have hsent : (parts.zip sizes).mapM (fun p => sends δ c weights iteration p.1 p.2) = .ok _ :=
    mapM_sends_eq hlayout hweights hnormalized hsizes hpositive
  cases parts with
  | nil =>
    rw [List.length_nil] at hcount
    omega
  | cons part others =>
    refine ⟨_, _, hsent, ?_, fun p hp hnone => ?_⟩
    · have htraced : ∀ p ∈ part :: others, AllTraced (Model.ofParameters l weights) p.1.samples :=
        fun p hp => allTraced_of_fitting hl (hnormalized p hp).1.fitting
      obtain ⟨hfirst, hrest⟩ := List.forall_mem_cons.mp htraced
      unfold sharePayload
      rw [← hflat, ← hvalidFlat]
      exact combineAll_payloads hl hfirst hrest
    · rw [snd_of_mem_zip_map (f := sharePayload δ (Model.ofParameters l weights) iteration) hp,
        sharePayload, hnone]
      exact gradients_of_none

end Rounds

section Sample

/-- A categorical column with two categories. -/
def petalColumn : ColumnRecord :=
  bareColumn 1 "petal" .categorical ["red", "white"]

/-- One dense column, one categorical column, and a hidden layer of two. -/
def petalConfig : ModelConfig :=
  ⟨[petalColumn], none, [0], [1], [1], .int 1, [.int 2], [.text "tanh"], 0, .zscale⟩

def petalLayout : Layout :=
  ⟨[0], [1], [1], [⟨1, 3, 1⟩], [⟨1, 3, 1⟩], 2, [(2, .tanh)], 0⟩

def petalWeights : Parameters ℚ :=
  petalLayout.shapes.map fun p => (p.1, Tensor.replicate p.2 (1 / 2))

/-- Records of one value and one index each. -/
def petals (records : List (ℚ × Int)) : Dataset ℚ :=
  ⟨1, 1, 1, records.map fun r => ⟨⟨[r.1], [r.2], [r.2]⟩, 1, 1⟩⟩

lemma normalized_petals (records : List (ℚ × Int)) (h : fitsIndex records.length = true) :
    Normalized petalLayout (petals records) where
  denseWidth := rfl
  embedWidth := rfl
  wideWidth := rfl
  dense := List.forall_mem_map.mpr fun _ _ => rfl
  embed := List.forall_mem_map.mpr fun _ _ => rfl
  wide := List.forall_mem_map.mpr fun _ _ => rfl
  size := by
    unfold Dataset.size petals
    rwa [List.length_map]

/-- Two records to train on and one to validate on, split among three workers. The first of them has
no records. -/
theorem combineAll_shares_petals : ∃ parts first rest result,
    Worker.shares 3 (petals [(1, 0), (-2, 1)]) (some (petals [(3, 0)])) = .ok parts ∧
    parts.map (·.1.size) = [0, 1, 1] ∧
    (parts.zip [1, 2, 4096]).mapM (fun p => sends ℚ petalConfig petalWeights 0 p.1 p.2) =
      .ok (first :: rest) ∧
    sends ℚ petalConfig petalWeights 0 (petals [(1, 0), (-2, 1)], some (petals [(3, 0)])) 2 =
      .ok result ∧
    Payload.combineAll first rest = .ok result ∧
    first.gradients = petalLayout.shapes.map fun e => (e.1, Tensor.zeros e.2) := by
  have hlayout : petalConfig.layout = .ok petalLayout := plan_eq_ok.mpr ⟨rfl, by decide⟩
  have hweights : Parameters.check petalLayout.shapes petalWeights = .ok () :=
    check_of_perm (List.Perm.refl _) rfl (by decide)
  have hvalidation : ∀ d ∈ some (petals [(3, 0)]), Normalized petalLayout d := fun d hd => by
    cases hd
    exact normalized_petals _ (by decide)
  obtain ⟨result, hwhole, hsplit, hparts⟩ := combineAll_shares (δ := ℚ) (k := 3) hlayout hweights
    (normalized_petals [(1, 0), (-2, 1)] (by decide)) hvalidation (by decide)
  obtain ⟨parts, hshares⟩ := hsplit (by decide)
  obtain ⟨hcount, hcombined⟩ := hparts parts hshares
  obtain ⟨first, rest, hsent, hresult, hempty⟩ := hcombined [1, 2, 4096] hcount.symm (by decide)
  have hsizes : (Worker.shares 3 (petals [(1, 0), (-2, 1)]) (some (petals [(3, 0)]))).toOption.map
      (·.map (·.1.size)) = some [0, 1, 1] := by
    decide +kernel
  rw [hshares] at hsizes
  have hsizes : parts.map (·.1.size) = [0, 1, 1] := Option.some.inj hsizes
  refine ⟨parts, first, rest, result, hshares, hsizes, hsent, hwhole 2 (by decide), hresult, ?_⟩
  cases parts with
  | nil => cases hsizes
  | cons part others =>
    have hnone : part.1.size = 0 := (List.cons.inj hsizes).1
    exact hempty (part, first) List.mem_cons_self (List.eq_nil_of_length_eq_zero hnone)

end Sample

end WideDeep.Proofs
