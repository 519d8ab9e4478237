import Mathlib.Tactic
import WideDeep.Proofs.LossSlopes
import WideDeep.Proofs.TraceShapes

/-!
# Derivatives that are carried back

Over the real numbers, what is carried back from the loss of a record is its derivative: when the
numbers of a model move, the loss changes at the rate that the traces of the layers, the derivatives by
the inputs and the slope of the loss give. No value may be at the kink of an activation.
-/

namespace WideDeep.Proofs

section Products

open WideDeep.Gradient Layer

variable {n k : Nat} {x y v : List ℝ} {l : Layer ℝ}

lemma dot_nil_right (xs : List ℝ) : dot xs [] = 0 := by
  unfold dot
  rw [List.zipWith_nil_right]
  rfl

lemma dot_cons (a b : ℝ) (xs ys : List ℝ) : dot (a :: xs) (b :: ys) = a * b + dot xs ys :=
  total_cons _ _

lemma dot_comm (xs ys : List ℝ) : dot xs ys = dot ys xs :=
  congrArg total (List.zipWith_comm_of_comm mul_comm)

lemma dot_add (h : x.length = y.length) (v : List ℝ) : dot v (add x y) = dot v x + dot v y := by
  induction v generalizing x y with
  | nil => exact (add_zero 0).symm
  | cons c rest ih =>
    cases x with
    | nil =>
      cases y with
      | nil => rw [add, List.zipWith_nil_left, dot_nil_right, add_zero]
      | cons b ys => cases h
    | cons a xs =>
      cases y with
      | nil => cases h
      | cons b ys =>
        have hrest := ih (Nat.succ.inj h)
        unfold add at hrest ⊢
        rw [List.zipWith_cons_cons, dot_cons, dot_cons, dot_cons, hrest]
        ring

lemma dot_zeros (n : Nat) (v : List ℝ) : dot v (List.replicate n 0) = 0 := by
  induction v generalizing n with
  | nil => rfl
  | cons c rest ih =>
    cases n with
    | zero => exact dot_nil_right _
    | succ n => rw [List.replicate_succ, dot_cons, ih, mul_zero, add_zero]

lemma dot_scale (c : ℝ) (x v : List ℝ) : dot v (scale c x) = c * dot v x := by
  induction v generalizing x with
  | nil => exact (mul_zero c).symm
  | cons a rest ih =>
    cases x with
    | nil => exact (dot_nil_right _).trans (by rw [dot_nil_right, mul_zero])
    | cons b xs =>
      have hrest := ih xs
      unfold scale at hrest ⊢
      rw [List.map_cons, dot_cons, dot_cons, hrest]
      ring

/-- A sum of rows pairs with a vector as its rows do. -/
lemma dot_foldl_add {rows : List (List ℝ)} (h : ∀ r ∈ rows, r.length = n) {start : List ℝ}
    (hstart : start.length = n) (v : List ℝ) :
    dot v (rows.foldl add start) = dot v start + total (rows.map (dot v)) := by
  induction rows generalizing start with
  | nil => exact (add_zero _).symm
  | cons r rest ih =>
    obtain ⟨hr, hrest⟩ := List.forall_mem_cons.mp h
    have hlength : start.length = r.length := hstart.trans hr.symm
    rw [List.foldl_cons, ih hrest ((length_add hlength).trans hstart), dot_add hlength,
      List.map_cons, total_cons, add_assoc]

/-- Carrying derivatives back through the weights of a layer is adjoint to applying them. -/
theorem dot_pullBack (h : LayerFits n k l) (delta v : List ℝ) :
    dot (pullBack l n delta) v = dot delta (l.weight.map (dot · v)) := by
  have hrows : ∀ r ∈ List.zipWith scale delta l.weight, r.length = n := by
    intro r hr
    rw [← List.map_uncurry_zip_eq_zipWith] at hr
    obtain ⟨p, hp, rfl⟩ := List.mem_map.mp hr
    exact (List.length_map _).trans (h.rows p.2 (List.of_mem_zip hp).2)
  rw [dot_comm, pullBack, dot_foldl_add hrows List.length_replicate, dot_zeros, zero_add,
    List.map_zipWith]
  unfold dot
  rw [List.zipWith_map_right]
  refine congrArg total (congrArg (fun f => List.zipWith f delta l.weight) ?_)
  funext c row
  change dot v (scale c row) = c * dot row v
  rw [dot_scale, dot_comm]

/-- What an activation does to derivatives is adjoint to itself. -/
lemma dot_back (a : Activation) (ps : List (ℝ × ℝ)) (g v : List ℝ) :
    dot g (List.zipWith (fun p v => a.back p.1 p.2 v) ps v) =
      dot (List.zipWith (fun p g => a.back p.1 p.2 g) ps g) v := by
  induction ps generalizing g v with
  | nil => exact dot_nil_right g
  | cons p rest ih =>
    cases g with
    | nil => rfl
    | cons c g =>
      cases v with
      | nil => rw [List.zipWith_nil_right, dot_nil_right, dot_nil_right]
      | cons b v =>
        rw [List.zipWith_cons_cons, List.zipWith_cons_cons, dot_cons, dot_cons, ih, mul_back]

end Products

section Layers

open WideDeep.Gradient Layer

variable {t : ℝ} {fs gs x : List (ℝ → ℝ)} {v w x' : List ℝ} {l : Layer (ℝ → ℝ)} {l' : Layer ℝ}
  {n k : Nat}

/-- The derivatives at `t` of functions. -/
abbrev Rates (t : ℝ) (fs : List (ℝ → ℝ)) (v : List ℝ) : Prop :=
  List.Forall₂ (fun f r => HasDerivAt f r t) fs v

def valuesAt (s : ℝ) (fs : List (ℝ → ℝ)) : List ℝ :=
  fs.map (· s)

lemma hasDerivAt_dot (hf : Rates t fs v) (hg : Rates t gs w) :
    HasDerivAt (fun s => dot (valuesAt s fs) (valuesAt s gs))
      (dot v (valuesAt t gs) + dot (valuesAt t fs) w) t := by
  unfold valuesAt
  induction hf generalizing gs w with
  | nil => exact (hasDerivAt_const t 0).congr_deriv (add_zero 0).symm
  | cons hf _ ih =>
    cases hg with
    | nil =>
      simp only [List.map_nil, dot_nil_right, add_zero]
      exact hasDerivAt_const t 0
    | cons hg hgs =>
      simp only [List.map_cons, dot_cons]
      refine ((hf.mul hg).add (ih hgs)).congr_deriv ?_
      ring

/-- A layer of functions at some moment. -/
def layerAt (s : ℝ) (l : Layer (ℝ → ℝ)) : Layer ℝ :=
  ⟨l.weight.map (valuesAt s), valuesAt s l.bias, l.activation⟩

/-- The derivatives of the numbers of a layer. -/
structure LayerRates (t : ℝ) (l : Layer (ℝ → ℝ)) (l' : Layer ℝ) : Prop where
  weight : List.Forall₂ (Rates t) l.weight l'.weight
  bias : Rates t l.bias l'.bias

lemma layerFits_at (h : LayerFits n k l) (s : ℝ) : LayerFits n k (layerAt s l) where
  weight := (List.length_map _).trans h.weight
  bias := (List.length_map _).trans h.bias
  rows := List.forall_mem_map.mpr fun row hrow => (List.length_map _).trans (h.rows row hrow)

/-- What a layer of functions has before its activation. -/
noncomputable def linearOf (l : Layer (ℝ → ℝ)) (x : List (ℝ → ℝ)) : List (ℝ → ℝ) :=
  List.zipWith (fun row b s => dot (valuesAt s row) (valuesAt s x) + b s) l.weight l.bias

noncomputable def applyOf (l : Layer (ℝ → ℝ)) (x : List (ℝ → ℝ)) : List (ℝ → ℝ) :=
  (linearOf l x).map fun f s => l.activation.apply (f s)

lemma valuesAt_linearOf (l : Layer (ℝ → ℝ)) (x : List (ℝ → ℝ)) (s : ℝ) :
    valuesAt s (linearOf l x) = (layerAt s l).linear (valuesAt s x) := by
  unfold valuesAt linearOf Layer.linear layerAt
  dsimp only
  rw [List.map_zipWith, valuesAt, List.zipWith_map]
  rfl

lemma valuesAt_applyOf (l : Layer (ℝ → ℝ)) (x : List (ℝ → ℝ)) (s : ℝ) :
    valuesAt s (applyOf l x) = (layerAt s l).apply (valuesAt s x) := by
  unfold Layer.apply
  rw [← valuesAt_linearOf]
  unfold valuesAt applyOf
  rw [List.map_map, List.map_map]
  rfl

/-- Before its activation, a layer moves by its own rates at its inputs, and by those of the inputs. -/
lemma rates_linearOf (hl : LayerRates t l l') (hx : Rates t x x') :
    Rates t (linearOf l x)
      (add (l'.linear (valuesAt t x)) ((layerAt t l).weight.map (dot · x'))) := by
  obtain ⟨hweight, hbias⟩ := hl
  unfold linearOf Layer.linear layerAt add
  dsimp only
  generalize l.weight = rows, l'.weight = rows', l.bias = bias, l'.bias = bias' at *
  induction hweight generalizing bias bias' with
  | nil => exact List.Forall₂.nil
  | cons hrow _ ih =>
    cases hbias with
    | nil => exact List.Forall₂.nil
    | cons hb hbias =>
      refine List.Forall₂.cons (((hasDerivAt_dot hrow hx).add hb).congr_deriv ?_) (ih _ _ hbias)
      ring

/-- Behind its activation, a layer moves as the activation does to the rates before it. -/
lemma rates_activation {a : Activation} (h : Rates t fs v)
    (hkink : ∀ z ∈ valuesAt t fs, OffKink a z) :
    Rates t (fs.map fun f s => a.apply (f s)) (List.zipWith (fun p v => a.back p.1 p.2 v)
      ((valuesAt t fs).zip ((valuesAt t fs).map a.apply)) v) := by
  induction h with
  | nil => exact List.Forall₂.nil
  | @cons f r _ _ hf _ ih =>
    obtain ⟨hfirst, hrest⟩ := List.forall_mem_cons.mp hkink
    refine List.Forall₂.cons (((hasDerivAt_apply hfirst).comp t hf).congr_deriv ?_) (ih hrest)
    rw [← mul_back, one_mul]

/-- One layer carries back what reaches its outputs: to its inputs, and to its weights and biases. -/
lemma dot_layer (h : LayerFits n k l) (hl : LayerRates t l l') (x : List (ℝ → ℝ)) (x' g : List ℝ) :
    let before := (layerAt t l).linear (valuesAt t x)
    let pairs := before.zip (before.map l.activation.apply)
    let delta := List.zipWith (fun p g => l.activation.back p.1 p.2 g) pairs g
    dot g (List.zipWith (fun p v => l.activation.back p.1 p.2 v) pairs
        (add (l'.linear (valuesAt t x)) ((layerAt t l).weight.map (dot · x')))) =
      dot (pullBack (layerAt t l) n delta) x' + dot delta (l'.linear (valuesAt t x)) := by
  intro before pairs delta
  have hat := layerFits_at h t
  have hlinear : (l'.linear (valuesAt t x)).length =
      ((layerAt t l).weight.map (dot · x')).length := by
    unfold Layer.linear
    rw [List.length_zipWith, List.length_map, hat.weight, ← hl.weight.length_eq, ← hl.bias.length_eq,
      h.weight, h.bias, min_self]
  rw [dot_back, dot_add hlinear, dot_pullBack hat, add_comm]

/-- No value before an activation is at its kink. -/
def OffKinks : List (Layer ℝ) → List ℝ → Prop
  | [], _ => True
  | l :: rest, x => (∀ z ∈ l.linear x, OffKink l.activation z) ∧ OffKinks rest (l.apply x)

/-- The rate at which the output of layers changes, as what is carried back through them tells: by the
rates of the inputs, and layer by layer by those of the weights and biases. -/
noncomputable def carriedRate (carried : List (LayerTrace ℝ) × List ℝ) (ls' : List (Layer ℝ))
    (x' : List ℝ) : ℝ :=
  dot carried.2 x' + total (List.zipWith (fun trace l' => dot trace.delta (l'.linear trace.input))
    carried.1 ls')

end Layers

section Backward

open WideDeep.Gradient Layer

variable {t d : ℝ} {ls : List (Layer (ℝ → ℝ))} {ls' : List (Layer ℝ)} {l : Layer (ℝ → ℝ)}
  {l' : Layer ℝ} {x : List (ℝ → ℝ)} {x' : List ℝ} {n k : Nat}

/-- The derivative `d` is carried back right: it is multiplied with the rate of the output. -/
def CarriesBack (t d : ℝ) (ls : List (Layer (ℝ → ℝ))) (ls' : List (Layer ℝ)) (x : List (ℝ → ℝ))
    (x' : List ℝ) : Prop :=
  HasDerivAt (fun s => d * Model.deepSum (ls.map (layerAt s)) (valuesAt s x))
    (carriedRate (backward (ls.map (layerAt t)) (valuesAt t x) d) ls' x') t

lemma carriesBack_nil (hx : Rates t x x') : CarriesBack t d [] [] x x' := by
  cases hx with
  | nil => exact (hasDerivAt_const t (d * 0)).congr_deriv (add_zero (0 : ℝ)).symm
  | @cons f r _ rates hf _ =>
    refine (hf.const_mul d).congr_deriv ?_
    change d * r = dot [d] (r :: rates) + 0
    rw [dot_cons]
    exact ((add_zero _).trans (add_zero _)).symm

/-- If what is carried back to the outputs of a layer is right, it is right at its inputs. -/
lemma carriesBack_cons (h : LayerFits n k l) (hl : LayerRates t l l') (hlength : x.length = n)
    (hx : Rates t x x') (hkink : ∀ z ∈ (layerAt t l).linear (valuesAt t x), OffKink l.activation z)
    (hlater : ∀ y', Rates t (applyOf l x) y' → CarriesBack t d ls ls' (applyOf l x) y') :
    CarriesBack t d (l :: ls) (l' :: ls') x x' := by
  have hbefore := rates_linearOf hl hx
  rw [← valuesAt_linearOf] at hkink
  have hafter := rates_activation hbefore hkink
  have hrest := hlater _ hafter
  unfold CarriesBack at hrest ⊢
  simp only [valuesAt_applyOf] at hrest
  refine hrest.congr_deriv ?_
  rw [valuesAt_linearOf]
  have hcarried := dot_layer h hl x x'
    (backward (ls.map (layerAt t)) ((layerAt t l).apply (valuesAt t x)) d).2
  unfold carriedRate
  rw [hcarried, List.map_cons, backward]
  dsimp only
  have hwidth : (valuesAt t x).length = n := (List.length_map _).trans hlength
  rw [hwidth, List.zipWith_cons_cons, total_cons]
  exact add_assoc _ _ _

/-- The derivatives that are carried back through layers are those of their output. -/
theorem hasDerivAt_backward (h : LayersFit n ls) (hls : List.Forall₂ (LayerRates t) ls ls')
    (hlength : x.length = n) (hx : Rates t x x')
    (hkinks : OffKinks (ls.map (layerAt t)) (valuesAt t x)) (d : ℝ) : CarriesBack t d ls ls' x x' := by
  -- on the layers, where the outputs of the first one are the inputs of the others
  induction h generalizing ls' x x' with
  | last fits _ =>
    cases hls with
    | cons hl hnil =>
      cases hnil
      exact carriesBack_cons fits hl hlength hx hkinks.1 fun y' hy => carriesBack_nil hy
  | hidden fits later ih =>
    cases hls with
    | cons hl hrest =>
      refine carriesBack_cons fits hl hlength hx hkinks.1 fun y' hy => ih hrest ?_ hy ?_
      · rw [← List.length_map (· t), ← valuesAt, valuesAt_applyOf]
        exact length_apply (layerFits_at fits t) _
      · rw [valuesAt_applyOf]
        exact hkinks.2

end Backward

section Models

open WideDeep.Gradient Layer

variable {t : ℝ} {xs ys : ℝ → List ℝ} {v w : List ℝ} {rows : ℝ → List (List ℝ)}
  {rates : List (List ℝ)} {m : ℝ → Model ℝ} {m' : Model ℝ}

/-- Numbers that move, with their rates at `t`. -/
def Moves (t : ℝ) (xs : ℝ → List ℝ) (v : List ℝ) : Prop :=
  ∃ fs, (∀ s, xs s = valuesAt s fs) ∧ Rates t fs v

def MovesRows (t : ℝ) (rows : ℝ → List (List ℝ)) (rates : List (List ℝ)) : Prop :=
  ∃ fs : List (List (ℝ → ℝ)), (∀ s, rows s = fs.map (valuesAt s)) ∧
    List.Forall₂ (Rates t) fs rates

lemma Moves.head (h : Moves t xs v) : HasDerivAt (fun s => (xs s).headD 0) (v.headD 0) t := by
  obtain ⟨fs, hvalues, hrates⟩ := h
  simp only [hvalues]
  cases hrates with
  | nil => exact hasDerivAt_const t 0
  | cons hf _ => exact hf

lemma Moves.append (hx : Moves t xs v) (hy : Moves t ys w) :
    Moves t (fun s => xs s ++ ys s) (v ++ w) := by
  obtain ⟨fs, hfs, hv⟩ := hx
  obtain ⟨gs, hgs, hw⟩ := hy
  refine ⟨fs ++ gs, fun s => ?_, List.rel_append hv hw⟩
  change xs s ++ ys s = valuesAt s (fs ++ gs)
  rw [hfs, hgs]
  exact List.map_append.symm

lemma Moves.flatMap {β : Type} {xs : β → ℝ → List ℝ} {v : β → List ℝ} {items : List β}
    (h : ∀ i ∈ items, Moves t (xs i) (v i)) :
    Moves t (fun s => items.flatMap fun i => xs i s) (items.flatMap v) := by
  induction items with
  | nil => exact ⟨[], fun _ => rfl, List.Forall₂.nil⟩
  | cons i rest ih =>
    obtain ⟨hfirst, hrest⟩ := List.forall_mem_cons.mp h
    exact hfirst.append (ih hrest)

lemma Moves.pieces (h : Moves t xs v) (width n : Nat) :
    MovesRows t (fun s => Tensor.pieces width n (xs s)) (Tensor.pieces width n v) := by
  obtain ⟨fs, hvalues, hrates⟩ := h
  have hmap : ∀ s, Tensor.pieces width n (valuesAt s fs) =
      (Tensor.pieces width n fs).map (valuesAt s) := by
    intro s
    clear hvalues hrates
    induction n generalizing fs with
    | zero => rfl
    | succ n ih =>
      have hrest := ih (fs.drop width)
      unfold valuesAt at hrest ⊢
      rw [Tensor.pieces, Tensor.pieces, List.map_cons, ← List.map_take, ← List.map_drop, hrest]
  refine ⟨Tensor.pieces width n fs,
    fun s => (congrArg (Tensor.pieces width n) (hvalues s)).trans (hmap s), ?_⟩
  clear hvalues hmap
  induction n generalizing fs v with
  | zero => exact List.Forall₂.nil
  | succ n ih =>
    exact List.Forall₂.cons (List.forall₂_take width hrates) (ih _ (List.forall₂_drop width hrates))

lemma MovesRows.lookup (h : MovesRows t rows rates) (index : Int) :
    Moves t (fun s => Model.lookup (rows s) index) (Model.lookup rates index) := by
  obtain ⟨fs, hvalues, hrates⟩ := h
  have hlength : ∀ s, (fs.map (valuesAt s)).length = rates.length := by
    intro s
    rw [List.length_map, hrates.length_eq]
  unfold Model.lookup
  simp only [hvalues, hlength]
  generalize resolve rates.length index = k
  refine ⟨fs.getD k [], fun s => ?_, ?_⟩
  · change (fs.map (valuesAt s)).getD k [] = valuesAt s (fs.getD k [])
    rw [List.getD_eq_getElem?_getD, List.getElem?_map, List.getD_eq_getElem?_getD]
    cases fs[k]? <;> rfl
  · clear hvalues hlength
    induction hrates generalizing k with
    | nil => exact List.Forall₂.nil
    | cons hr _ ih =>
      cases k with
      | zero => exact hr
      | succ k => exact ih k

/-- Models of one layout whose numbers move; those of the last model are the rates. -/
structure ModelMoves (t : ℝ) (m : ℝ → Model ℝ) (m' : Model ℝ) : Prop where
  layout : ∀ s, (m s).layout = m'.layout
  numbers : ∀ p ∈ m'.layout.shapes,
    Moves t (fun s => ((m s).parameters.tensor p.1).data) (m'.parameters.tensor p.1).data

lemma shape_of_moves (hl : Ready m'.layout) (h : ModelMoves t m m') (s : ℝ) :
    ∀ p ∈ m'.layout.shapes, ((m s).parameters.tensor p.1).shape = p.2 := by
  have hown := shape_of_ready (m := m s) (by rwa [h.layout s])
  rwa [h.layout s] at hown

lemma movesRows_tensor (hl : Ready m'.layout) (h : ModelMoves t m m') {name : ParamName}
    {n width : Nat} (hmem : (name, [n, width]) ∈ m'.layout.shapes) :
    MovesRows t (fun s => ((m s).parameters.tensor name).rows) (m'.parameters.tensor name).rows := by
  have hrows := fun s => rows_of_shape (shape_of_moves hl h s _ hmem)
  rw [rows_of_shape (shape_of_ready hl _ hmem)]
  simp only [hrows]
  exact (h.numbers _ hmem).pieces width n

/-- The wide part of a record moves with the rows that it reads. -/
lemma hasDerivAt_wideSum (hl : Ready m'.layout) (h : ModelMoves t m m') (indices : List Int) :
    HasDerivAt (fun s => (m s).wideSum indices) (m'.wideSum indices) t := by
  unfold Model.wideSum
  simp only [h.layout]
  have hbias : HasDerivAt (fun s => ((m s).parameters.tensor .wideBias).head)
      (m'.parameters.tensor .wideBias).head t := (h.numbers _ List.mem_cons_self).head
  have hread : ∀ p ∈ m'.layout.wide.zip indices,
      HasDerivAt (fun s => (Model.lookup ((m s).wideRows p.1) p.2).headD 0)
        ((Model.lookup (m'.wideRows p.1) p.2).headD 0) t := by
    intro p hp
    obtain ⟨table, htable, hcolumn⟩ := hl.wide p.1 (List.of_mem_zip hp).1
    have hrows := movesRows_tensor hl h (mem_shapes_wide htable)
    rw [hcolumn] at hrows
    exact (hrows.lookup p.2).head
  generalize m'.layout.wide.zip indices = items at hread
  generalize (m'.parameters.tensor .wideBias).head = start' at hbias ⊢
  generalize hstart : (fun s => ((m s).parameters.tensor .wideBias).head) = start at hbias
  have hstarts : ∀ s, ((m s).parameters.tensor .wideBias).head = start s := congrFun hstart
  simp only [hstarts]
  clear hstart hstarts
  induction items generalizing start start' with
  | nil => exact hbias
  | cons p rest ih =>
    obtain ⟨hfirst, hrest⟩ := List.forall_mem_cons.mp hread
    exact ih hrest _ _ (hbias.add hfirst)

/-- The inputs of the deep part move with the dense values and the rows that are read. -/
lemma moves_deepInputs (hl : Ready m'.layout) (h : ModelMoves t m m') (hx : Moves t xs v)
    (embed wide : List Int) :
    Moves t (fun s => (m s).deepInputs ⟨xs s, embed, wide⟩) (m'.deepInputs ⟨v, embed, wide⟩) := by
  unfold Model.deepInputs
  simp only [h.layout]
  refine hx.append (Moves.flatMap fun p hp => ?_)
  obtain ⟨table, htable, hcolumn⟩ := hl.embed p.1 (List.of_mem_zip hp).1
  have hrows := movesRows_tensor hl h (mem_shapes_embed htable)
  rw [hcolumn] at hrows
  exact hrows.lookup p.2

/-- The layers of models that move are layers of functions. -/
lemma exists_layers (h : ModelMoves t m m') (hl : Ready m'.layout) (position : Nat)
    (sizes : List LayerSize)
    (hmem : ∀ p ∈ Layout.layerShapes position sizes, p ∈ m'.layout.shapes) :
    ∃ ls : List (Layer (ℝ → ℝ)), (∀ s, (m s).layersFrom position sizes = ls.map (layerAt s)) ∧
      List.Forall₂ (LayerRates t) ls (m'.layersFrom position sizes) := by
  induction sizes generalizing position with
  | nil => exact ⟨[], fun _ => rfl, List.Forall₂.nil⟩
  | cons size rest ih =>
    obtain ⟨weights, hweights, hweightRates⟩ :=
      movesRows_tensor hl h (hmem (.deepWeight position, [size.outputs, size.inputs]) List.mem_cons_self)
    obtain ⟨biases, hbiases, hbiasRates⟩ :=
      h.numbers _ (hmem (.deepBias position, [size.outputs])
        (List.mem_cons_of_mem _ List.mem_cons_self))
    obtain ⟨ls, hls, hrates⟩ := ih (position + 1) fun p hp =>
      hmem p (List.mem_cons_of_mem _ (List.mem_cons_of_mem _ hp))
    refine ⟨⟨weights, biases, size.activation⟩ :: ls, fun s => ?_,
      List.Forall₂.cons ⟨hweightRates, hbiasRates⟩ hrates⟩
    rw [List.map_cons, ← hls s]
    unfold layerAt
    rw [← hbiases s, ← hweights s]
    rfl

lemma layersFit_of_at {n : Nat} {ls : List (Layer (ℝ → ℝ))} {s : ℝ}
    (h : LayersFit n (ls.map (layerAt s))) : LayersFit n ls := by
  have hfits : ∀ {n k : Nat} {l : Layer (ℝ → ℝ)}, LayerFits n k (layerAt s l) → LayerFits n k l := by
    intro n k l hat
    exact ⟨(List.length_map _).symm.trans hat.weight, fun row hrow => (List.length_map _).symm.trans
      (hat.rows _ (List.mem_map_of_mem hrow)), (List.length_map _).symm.trans hat.bias⟩
  induction ls generalizing n with
  | nil => cases h
  | cons l rest ih =>
    rw [List.map_cons] at h
    cases hrest : rest with
    | nil =>
      rw [hrest] at h
      cases h with
      | last fits linear => exact LayersFit.last (hfits fits) linear
      | hidden fits later => cases later
    | cons next others =>
      rw [hrest] at h
      cases h with
      | hidden fits later => exact LayersFit.hidden (hfits fits) (hrest ▸ ih (hrest ▸ later))

/-- The derivatives of the loss of one record are those that the model carries back. When the numbers of
a model and the dense values of a record move, the loss of the record changes at the rate that its
sensitivity tells: the slope for the rows that the wide part reads, and what reached the inputs of the
deep part and its layers for those. -/
theorem hasDerivAt_loss (hl : Ready m'.layout) (h : ModelMoves t m m') (hx : Moves t xs v)
    (hdense : v.length = m'.layout.dense.length) {embed : List Int}
    (hembed : embed.length = m'.layout.embed.length) (wide : List Int) (target weight : ℝ)
    (hkinks : OffKinks (m t).layers ((m t).deepInputs ⟨xs t, embed, wide⟩)) :
    let traced := (m t).sensitivity ⟨⟨xs t, embed, wide⟩, target, weight⟩
    HasDerivAt (fun s => Loss.weighted ((m s).logit ⟨xs s, embed, wide⟩) target weight)
      (traced.slope * m'.wideSum wide + carriedRate (traced.layers, traced.inputs) m'.layers
        (m'.deepInputs ⟨v, embed, wide⟩)) t := by
  intro traced
  obtain ⟨ls, hls, hrates⟩ := exists_layers h hl 0 m'.layout.layers fun p hp => mem_shapes_layers hp
  obtain ⟨x, hvalues, hinputs⟩ := moves_deepInputs hl h hx embed wide
  have hlayers : ∀ s, (m s).layers = ls.map (layerAt s) := by
    intro s
    unfold Model.layers
    rw [h.layout]
    exact hls s
  have hfit : LayersFit m'.layout.inputs ls := by
    refine layersFit_of_at (s := t) ?_
    rw [← hls t]
    exact layersFit_layersFrom (m t) 0 _ _ fun p hp => shape_of_moves hl h t p (mem_shapes_layers hp)
  have hlength : x.length = m'.layout.inputs := by
    rw [hinputs.length_eq]
    exact length_deepInputs hl hdense hembed
  have hread : ∀ s, (m s).deepInputs ⟨xs s, embed, wide⟩ = valuesAt s x := hvalues
  have htraced : (traced.layers, traced.inputs) =
      backward (ls.map (layerAt t)) (valuesAt t x) traced.slope := by
    rw [← hlayers, ← hread]
    rfl
  rw [hlayers, hread] at hkinks
  have hback := hasDerivAt_backward hfit hrates hlength hinputs hkinks
  obtain ⟨rate, hdeep, hrate⟩ : ∃ rate,
      HasDerivAt (fun s => Model.deepSum (ls.map (layerAt s)) (valuesAt s x)) rate t ∧
      traced.slope * rate = carriedRate (traced.layers, traced.inputs) m'.layers
        (m'.deepInputs ⟨v, embed, wide⟩) := by
    have houtput := hback 1
    have hscaled := hback traced.slope
    unfold CarriesBack at houtput hscaled
    simp only [one_mul] at houtput
    rw [← htraced] at hscaled
    exact ⟨_, houtput, (houtput.const_mul traced.slope).unique hscaled⟩
  have hlogit : HasDerivAt (fun s => (m s).logit ⟨xs s, embed, wide⟩) (rate + m'.wideSum wide) t := by
    unfold Model.logit
    simp only [hlayers, hread]
    exact hdeep.add (hasDerivAt_wideSum hl h wide)
  refine ((hasDerivAt_weighted _ target weight).comp t hlogit).congr_deriv ?_
  change traced.slope * (rate + m'.wideSum wide) = _
  rw [mul_add, hrate, add_comm]

end Models

end WideDeep.Proofs
