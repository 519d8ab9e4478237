import Mathlib.Tactic
import WideDeep.Proofs.InitialDraws
import WideDeep.Proofs.NormalizedValues

/-!
# Initial weights

The weights of a model are the draws of its law, each rounded to single precision. A range hands its
bounds to the generator as doubles and a uniform law hands them over as they are, so both give the
same weights with a generator that reads bounds as doubles. A range is only made of bounds of which it
can be told whether they are finite: an integer among them has to be a machine word, or the range is
refused.
-/

namespace WideDeep.Proofs
open Binary

section Bounds

variable {low high : Document} {a b : Number} {l h : Float}

/-- A bound that is finite: any integer, or a finite double. -/
def FiniteBound : Number → Prop
  | .int _ => True
  | .real x => isFinite x = true

/-- A bound that is accepted is a machine word, signed or unsigned, or a finite double. -/
def Accepted : Number → Prop
  | .int n => -0x8000000000000000 ≤ n ∧ n ≤ 0xffffffffffffffff
  | .real x => isFinite x = true

lemma isFiniteBound_of_accepted {d : Document} (hnumber : d.toNumber = .ok a) (h : Accepted a) :
    Initializer.isFiniteBound d = .ok true := by
  cases d with
  | bool value => rfl
  | int n =>
    cases hnumber
    have hword : (decide (-0x8000000000000000 ≤ n) && decide (n ≤ 0xffffffffffffffff)) = true := by
      simpa [Accepted] using h
    unfold Initializer.isFiniteBound
    simp only [Document.array?, List.mapM_cons, List.mapM_nil, Initializer.isFiniteValue]
    rw [if_pos hword]
    rfl
  | real x =>
    cases hnumber
    change (Except.ok (isFinite x) : Except Error Bool) = .ok true
    rw [h]
  | null => cases hnumber
  | text s => cases hnumber
  | list items => cases hnumber
  | table entries => cases hnumber

/-- A finite bound that is not accepted is an integer that is no machine word. Whether it is finite
cannot be told. -/
lemma isFiniteBound_of_not_accepted {d : Document} (hnumber : d.toNumber = .ok a) (hfinite : FiniteBound a)
    (h : ¬Accepted a) : Initializer.isFiniteBound d = .error .wrongType := by
  cases d with
  | int n =>
    cases hnumber
    have hword : ¬(decide (-0x8000000000000000 ≤ n) && decide (n ≤ 0xffffffffffffffff)) = true := by
      simpa [Accepted] using h
    unfold Initializer.isFiniteBound
    simp only [Document.array?, List.mapM_cons, List.mapM_nil, Initializer.isFiniteValue]
    rw [if_neg hword]
    rfl
  | bool value =>
    cases hnumber
    cases value <;> simp [Accepted] at h
  | real x =>
    cases hnumber
    exact absurd hfinite h
  | null => cases hnumber
  | text s => cases hnumber
  | list items => cases hnumber
  | table entries => cases hnumber

lemma isAbove_of_numbers (hlow : low.toNumber = .ok a) (hhigh : high.toNumber = .ok b) :
    Initializer.isAbove low high = .ok (b.less a) := by
  have hscalar : Initializer.isAbove low high = do
      return (← high.toNumber).less (← low.toNumber) := by
    unfold Initializer.isAbove
    split
    · cases hlow
    · rfl
  rw [hscalar, hhigh, hlow]
  rfl

/-- A bound that is accepted is a double. -/
lemma toReal_of_accepted (h : Accepted a) : ∃ l, a.toReal = .ok l := by
  cases a with
  | real x => exact ⟨x, rfl⟩
  | int n =>
    have hfinite : isFinite (doubleOfInt n) = true := by
      rw [isFinite_doubleOfInt_iff]
      unfold Accepted at h
      have hsmall : n.natAbs < 2 ^ 65 := by omega
      have hlarge : 2 ^ 65 < leastUnrounded := by decide +kernel
      exact hsmall.trans hlarge
    exact ⟨doubleOfInt n, if_pos hfinite⟩

/-- A range is made of bounds that are accepted and in order. Its bounds are their doubles. -/
theorem makeRange_eq (hlow : low.toNumber = .ok a) (hhigh : high.toNumber = .ok b)
    (ha : Accepted a) (hb : Accepted b) (horder : b.less a = false) :
    ∃ l h, a.toReal = .ok l ∧ b.toReal = .ok h ∧
      Initializer.make (.text "range") low high = .ok (.range l h) := by
  obtain ⟨l, hl⟩ := toReal_of_accepted ha
  obtain ⟨h, hh⟩ := toReal_of_accepted hb
  refine ⟨l, h, hl, hh, ?_⟩
  change Initializer.makeRange low high = .ok (.range l h)
  unfold Initializer.makeRange
  rw [isFiniteBound_of_accepted hlow ha, ok_bind, if_pos rfl, isFiniteBound_of_accepted hhigh hb,
    ok_bind, isAbove_of_numbers hlow hhigh, horder, hlow, hhigh, ok_bind, ok_bind, hl]
  change (b.toReal >>= fun x => .ok (Initializer.range l x)) = _
  rw [hh]
  rfl

/-- A range is refused if one of its bounds is an integer that is no machine word. -/
theorem makeRange_refused (hlow : low.toNumber = .ok a) (hhigh : high.toNumber = .ok b)
    (ha : FiniteBound a) (hb : FiniteBound b) (h : ¬(Accepted a ∧ Accepted b)) :
    Initializer.make (.text "range") low high = .error .wrongType := by
  change Initializer.makeRange low high = .error .wrongType
  unfold Initializer.makeRange
  by_cases hfirst : Accepted a
  · rw [isFiniteBound_of_accepted hlow hfirst, ok_bind, if_pos rfl,
      isFiniteBound_of_not_accepted hhigh hb fun hsecond => h ⟨hfirst, hsecond⟩]
    rfl
  · rw [isFiniteBound_of_not_accepted hlow ha hfirst]
    rfl

end Bounds

section Weights

variable {spec : LayoutSpec} {m : Model Float32} {source : Initializer} {f : Nat → Float} {t : Tape}

/-- A generator that reads the bounds of a uniform law as doubles. -/
def ReadsDoubles (t : Tape) : Prop :=
  ∀ low high l h, Tape.parameter low = .ok l → Tape.parameter high = .ok h →
    t.draws (.uniform low high) = t.draws (.uniform (.real l) (.real h))

/-- A law that is accepted draws all parameters of a model. -/
lemma exists_drawn (hmake : Layout.make spec = .ok m.layout) (h : t.draws source.law = .ok f) :
    ∃ drawn : Model Float32, m.drawWeights source t = .ok (drawn, movedBy t m.layout.size) ∧
      drawn.layout = m.layout ∧
      drawn.parameters.flatMap (·.2.data) = drawsFrom f t m.layout.size := by
  obtain ⟨drawn, hdrawn⟩ : ∃ drawn : Model Float32,
      drawn = ⟨m.layout, drawnBy f m.layout.shapes t, shapes_drawnBy _ _ _⟩ := ⟨_, rfl⟩
  have hlayout : drawn.layout = m.layout := by rw [hdrawn]
  have hparameters : drawn.parameters = drawnBy f m.layout.shapes t := by rw [hdrawn]
  refine ⟨drawn, ?_, hlayout, ?_⟩
  · have hself := ofParameters_self (m := drawn) (hlayout ▸ distinct_of_make hmake)
    rw [drawWeights_eq h, ← hparameters, ← hlayout, hself]
  · rw [hparameters, data_drawnBy, placesOf_shapes]

/-- A law that is refused draws nothing: the bias is the first to ask for a number. -/
lemma drawWeights_refused {e : Error} (h : t.draws source.law = .error e) :
    m.drawWeights source t = .error e := by
  have hfirst : Model.drawOne source [1] t = .error e := by
    change (source.scalar t).map _ = .error e
    unfold Initializer.scalar Initializer.randomize Tape.next
    rw [h]
    rfl
  unfold Model.drawWeights Layout.shapes Model.drawAll
  rw [hfirst]
  rfl

/-- With two laws that the generator does not tell apart, the same weights are drawn. -/
lemma drawWeights_congr {other : Initializer} (h : t.draws other.law = t.draws source.law) :
    m.drawWeights other t = m.drawWeights source t := by
  cases hsource : t.draws source.law with
  | error e => rw [drawWeights_refused hsource, drawWeights_refused (h.trans hsource)]
  | ok f => rw [drawWeights_eq hsource, drawWeights_eq (h.trans hsource)]

/-- Whatever the generator and the law are, if the generator accepts the law then the parameters of a
model take one draw for each of their numbers, and number `k` of all of them, parameter after
parameter and row by row, is draw `k` in single precision. If it refuses the law, nothing is drawn.
From finite bounds in order a uniform law is made. A range is made of them exactly if none is an integer
beyond the machine words. A generator that reads bounds as doubles does not tell the two apart: the
weights are the same, and so is the position behind them. -/
theorem initial_weights (hmake : Layout.make spec = .ok m.layout) (t : Tape) :
    (∀ source f, t.draws source.law = .ok f → ∃ drawn : Model Float32,
      m.drawWeights source t = .ok (drawn, ⟨t.draws, t.position + m.layout.size⟩) ∧
      drawn.layout = m.layout ∧
      drawn.parameters.flatMap (·.2.data) =
        (List.range m.layout.size).map fun k => narrow (f (t.position + k))) ∧
    (∀ source e, t.draws source.law = .error e → m.drawWeights source t = .error e) ∧
    ∀ low high a b, low.toNumber = .ok a → high.toNumber = .ok b → FiniteBound a → FiniteBound b →
      b.less a = false →
      ∃ other, Initializer.make (.text "uniform") low high = .ok other ∧
        (Accepted a ∧ Accepted b →
          ∃ source, Initializer.make (.text "range") low high = .ok source ∧
            (ReadsDoubles t → m.drawWeights other t = m.drawWeights source t)) ∧
        (¬(Accepted a ∧ Accepted b) →
          Initializer.make (.text "range") low high = .error .wrongType) := by
  refine ⟨fun source f h => exists_drawn hmake h, fun source e h => drawWeights_refused h, ?_⟩
  intro low high a b hlow hhigh ha hb horder
  refine ⟨.uniform low high, rfl, ?_, makeRange_refused hlow hhigh ha hb⟩
  rintro ⟨hfirst, hsecond⟩
  obtain ⟨l, h, hl, hh, hrange⟩ := makeRange_eq hlow hhigh hfirst hsecond horder
  refine ⟨_, hrange, fun hreads => drawWeights_congr ?_⟩
  apply hreads low high l h
  · unfold Tape.parameter
    rw [hlow, ok_bind, hl]
  · unfold Tape.parameter
    rw [hhigh, ok_bind, hh]

/-- A generator that goes through fractions reads its bounds as doubles. -/
lemma readsDoubles_ofFractions (fraction : Nat → Float) : ReadsDoubles (Tape.ofFractions fraction) := by
  intro low high l h hlow hhigh
  have hreal : ∀ x, Tape.parameter (.real x) = .ok x := fun _ => rfl
  unfold Tape.ofFractions
  dsimp only
  rw [hlow, hhigh, hreal, hreal]

end Weights

section Sample

/-- Column 4 has no category, so that its tables have one row. It is embedded in one number. -/
def briarSpec : LayoutSpec where
  categories := [(4, 0)]
  dense := [.int 0]
  embed := [.int 4]
  embedWidths := [.int 1]
  wide := [.int 4]
  hidden := [.int 2]
  activations := [.text "tanh"]
  l2 := .int 0

/-- A model of these columns, before its weights are drawn. -/
def briarModel : Model Float32 :=
  Model.blank ⟨[0], [4], [4], [⟨4, 1, 1⟩], [⟨4, 1, 1⟩], 2, [(2, .tanh)], 0⟩

lemma briar_make : Layout.make briarSpec = .ok briarModel.layout := rfl

/-- A generator that reads bounds as doubles. -/
def briarTape : Tape := Tape.seeded 7

/-- The deviation of one half is accepted, and so are bounds that are an integer and a double. Of the
integers `-2 ^ 70` and `2 ^ 70` a uniform law is made and draws weights, and no range is made. -/
theorem initial_weights_briar :
    (∃ drawn : Model Float32, briarModel.drawWeights (.gaussian (.real 0.5)) briarTape =
      .ok (drawn, ⟨briarTape.draws, 12⟩)) ∧
    (∃ source other, Initializer.make (.text "range") (.int (-1)) (.real 0.5) = .ok source ∧
      Initializer.make (.text "uniform") (.int (-1)) (.real 0.5) = .ok other ∧
      briarModel.drawWeights other briarTape = briarModel.drawWeights source briarTape) ∧
    Initializer.make (.text "range") (.int (-2 ^ 70)) (.int (2 ^ 70)) = .error .wrongType ∧
    ∃ drawn, briarModel.drawWeights (.uniform (.int (-2 ^ 70)) (.int (2 ^ 70))) briarTape =
      .ok drawn := by
  obtain ⟨hdraws, -, hbounds⟩ := initial_weights briar_make briarTape
  obtain ⟨drawn, hdrawn, -⟩ := hdraws (.gaussian (.real 0.5)) _ rfl
  obtain ⟨wide, hwide, -⟩ := hdraws (.uniform (.int (-2 ^ 70)) (.int (2 ^ 70))) _ rfl
  obtain ⟨other, hother, hmade, -⟩ := hbounds (.int (-1)) (.real 0.5) _ _ rfl rfl trivial
    (by unfold FiniteBound; decide +kernel) (by decide +kernel)
  obtain ⟨source, hsource, hsame⟩ :=
    hmade ⟨by unfold Accepted; decide, by unfold Accepted; decide +kernel⟩
  obtain ⟨-, -, -, hrefused⟩ := hbounds (.int (-2 ^ 70)) (.int (2 ^ 70)) _ _ rfl rfl trivial trivial
    (by decide)
  exact ⟨⟨drawn, hdrawn⟩, ⟨source, other, hsource, hother, hsame (readsDoubles_ofFractions _)⟩,
    hrefused (by unfold Accepted; decide), _, hwide⟩

end Sample

end WideDeep.Proofs
