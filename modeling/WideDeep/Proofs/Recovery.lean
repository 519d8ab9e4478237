import Mathlib.Tactic
import WideDeep.Proofs.MasterSteps
import WideDeep.Proofs.ParameterSets
import WideDeep.Proofs.ReaderFaults

/-!
# The first round of continuous training

A master that trains on takes the weights of its checkpoint if they fit its model. Otherwise it draws
them, as it would without a checkpoint. Two errors of the checkpoint are passed on instead.
-/

namespace WideDeep.Proofs

/-- A model whose columns, activations, and names and shapes of parameters are those of another. -/
structure SameModel (own other : Model Float32) : Prop where
  dense : own.layout.dense = other.layout.dense
  embed : own.layout.embed = other.layout.embed
  wide : own.layout.wide = other.layout.wide
  activations : own.layout.activations = other.layout.activations
  names : ∀ n, n ∈ own.parameters.names ↔ n ∈ other.parameters.names
  shapes : ∀ p ∈ own.layout.shapes, (other.parameters.tensor p.1).shape = p.2

/-- What stops the first round: a place of the model that is no path, or a checkpoint with an invalid
compressed stream or with a table or layer whose bytes no machine word counts. -/
def StopsRecovery (m : Master) (e : Error) : Prop :=
  (m.training.hasOddPlace = true ∧ e = .notText) ∨
    (m.training.hasOddPlace = false ∧ (e = .deflate ∨ e = .overflow) ∧
      ∃ bytes, m.checkpoint = .file bytes ∧ (StoredModel.load true bytes).2 = .error e)

/-- The stored model that the first round takes the weights of. -/
def Recovers (m : Master) (model : Model Float32) (stored : StoredModel) : Prop :=
  m.training.hasOddPlace = false ∧ SameModel model stored.model ∧
    ∃ bytes, m.checkpoint = .file bytes ∧ (StoredModel.load true bytes).2 = .ok stored

/-- The same master without continuous training. -/
def withoutRecovery (m : Master) : Master :=
  { m with training := m.training.set .continuousTraining (.bool false) }

section Update

variable {own other : Model Float32}

lemma checkLayout_eq_ok {own other : Layout} :
    Model.checkLayout own other = .ok () ↔
      own.dense = other.dense ∧ own.embed = other.embed ∧ own.wide = other.wide ∧
        own.activations = other.activations := by
  unfold Model.checkLayout
  by_cases hdense : own.dense = other.dense <;> by_cases hembed : own.embed = other.embed <;>
    by_cases hwide : own.wide = other.wide <;>
    by_cases hact : own.activations = other.activations <;>
    simp [hdense, hembed, hwide, hact, bind, Except.bind, throw, throwThe, MonadExceptOf.throw, pure,
      Except.pure]

/-- When the weights of another model are taken, and what they are then. -/
theorem update_eq_ok {r : Model Float32} :
    own.update other = .ok r ↔
      SameModel own other ∧ r = Model.ofParameters own.layout other.parameters := by
  have hsplit : own.update other = .ok r ↔
      Model.checkLayout own.layout other.layout = .ok () ∧ own.load other.parameters = .ok r := by
    unfold Model.update
    rw [bind_eq_ok]
    constructor
    · rintro ⟨_, hcheck, hload⟩
      exact ⟨hcheck, hload⟩
    · rintro ⟨hcheck, hload⟩
      exact ⟨_, hcheck, hload⟩
  rw [hsplit, checkLayout_eq_ok, load_eq_ok, check_eq_ok, names_layout]
  constructor
  · rintro ⟨⟨hdense, hembed, hwide, hactivations⟩, ⟨hwanted, hgiven, hshapes⟩, hr⟩
    exact ⟨⟨hdense, hembed, hwide, hactivations, fun n => ⟨hwanted n, hgiven n⟩, hshapes⟩, hr⟩
  · rintro ⟨h, hr⟩
    exact ⟨⟨h.dense, h.embed, h.wide, h.activations⟩,
      ⟨fun n => (h.names n).mp, fun n => (h.names n).mpr, h.shapes⟩, hr⟩

lemma parameters_of_same (h : SameModel own other) :
    (Model.ofParameters own.layout other.parameters).parameters =
      own.layout.shapes.map fun p => (p.1, other.parameters.tensor p.1) :=
  fit_of_shapes h.shapes

lemma checkLayout_error {own other : Layout} {e : Error} (h : Model.checkLayout own other = .error e) :
    e.kind = .shapeMismatch := by
  unfold Model.checkLayout at h
  by_cases hdense : own.dense = other.dense <;> by_cases hembed : own.embed = other.embed <;>
    by_cases hwide : own.wide = other.wide <;>
    by_cases hact : own.activations = other.activations <;>
    simp [hdense, hembed, hwide, hact, bind, Except.bind, throw, throwThe, MonadExceptOf.throw, pure,
      Except.pure] at h <;>
    · rw [← h]
      rfl

/-- Taking weights is refused for a model that does not fit, and for nothing else. -/
lemma update_error_isValue {e : Error} (h : own.update other = .error e) : e.isValue = true := by
  rcases bind_eq_error.mp h with hcheck | ⟨_, -, hload⟩
  · exact isValue_of_shapeMismatch (checkLayout_error hcheck)
  · exact load_error_isValue hload

end Update

section FirstRound

variable {m : Master} {job : Job Float32} {source : Initializer} {model : Model Float32}
  {bytes : Bytes}

lemma recover_of_restore (hplace : m.training.hasOddPlace = false) (hfile : m.checkpoint = .file bytes)
    {restored : Model Float32} (h : Master.restore model bytes = .ok restored) :
    m.recover model = ([], .ok (some restored)) := by
  unfold Master.recover
  simp [hplace, hfile, h]

lemma recover_of_restore_error (hplace : m.training.hasOddPlace = false)
    (hfile : m.checkpoint = .file bytes) {e : Error} (h : Master.restore model bytes = .error e) :
    m.recover model =
      if e.isFile || e.isValue then ([.checkpointUnusable], .ok none) else ([], .error e) := by
  unfold Master.recover
  simp [hplace, hfile, h]

lemma restore_of_error {e : Error} (h : (StoredModel.load true bytes).2 = .error e) :
    Master.restore model bytes = .error e := by
  unfold Master.restore
  rw [h]
  rfl

lemma restore_of_ok {stored : StoredModel} (h : (StoredModel.load true bytes).2 = .ok stored) :
    Master.restore model bytes = model.update stored.model := by
  unfold Master.restore
  rw [h]
  rfl

lemma recover_of_stops (model : Model Float32) {e : Error} (h : StopsRecovery m e) :
    m.recover model = ([], .error e) := by
  rcases h with ⟨hodd, rfl⟩ | ⟨hplace, hkind, bytes, hfile, hload⟩
  · unfold Master.recover
    rw [if_pos hodd]
  · rw [recover_of_restore_error hplace hfile (restore_of_error hload)]
    rcases hkind with rfl | rfl <;> rfl

lemma recover_of_recovers {stored : StoredModel} (h : Recovers m model stored) :
    m.recover model =
      ([], .ok (some (Model.ofParameters model.layout stored.model.parameters))) := by
  obtain ⟨hplace, hfits, bytes, hfile, hload⟩ := h
  have hupdate := update_eq_ok.mpr ⟨hfits, rfl⟩
  exact recover_of_restore hplace hfile ((restore_of_ok hload).trans hupdate)

/-- A checkpoint that neither stops the round nor fits leads to a notice. -/
theorem recover_of_neither (hstops : ∀ e, ¬StopsRecovery m e)
    (hrecovers : ∀ stored, ¬Recovers m model stored) :
    ∃ notice, m.recover model = ([notice], .ok none) := by
  cases hplace : m.training.hasOddPlace with
  | true => exact absurd (Or.inl ⟨hplace, rfl⟩) (hstops .notText)
  | false =>
    cases hfile : m.checkpoint with
    | noPath =>
      refine ⟨.noCheckpoint, ?_⟩
      unfold Master.recover
      simp [hplace, hfile]
    | absent =>
      refine ⟨.checkpointUnusable, ?_⟩
      unfold Master.recover
      simp [hplace, hfile]
    | file bytes =>
      refine ⟨.checkpointUnusable, ?_⟩
      cases hload : (StoredModel.load true bytes).2 with
      | error e =>
        rcases load_error hload with ⟨f, rfl⟩ | hkind
        · exact recover_of_restore_error hplace hfile (restore_of_error hload)
        · exact absurd (Or.inr ⟨hplace, hkind, bytes, hfile, hload⟩) (hstops e)
      | ok stored =>
        cases hupdate : model.update stored.model with
        | ok restored =>
          have hfits := (update_eq_ok.mp hupdate).1
          exact absurd ⟨hplace, hfits, bytes, hfile, hload⟩ (hrecovers stored)
        | error e =>
          rw [recover_of_restore_error hplace hfile ((restore_of_ok hload).trans hupdate),
            update_error_isValue hupdate, Bool.or_true, if_pos rfl]

lemma isContinuous_withoutRecovery (m : Master) : (withoutRecovery m).training.isContinuous = false := by
  unfold withoutRecovery TrainingConfig.isContinuous TrainingConfig.set
  rfl

lemma firstModel_of_recover (source : Initializer) (h : m.training.isContinuous = true)
    {notices : List Notice} {recovered : Except Error (Option (Model Float32))}
    (hrecover : m.recover model = (notices, recovered)) :
    m.firstModel model source = (notices, recovered >>= fun found =>
      match found with
      | some restored => .ok (restored, m.tape)
      | none => model.drawWeights source m.tape) := by
  unfold Master.firstModel
  simp only [h, if_true, hrecover]
  rfl

/-- The first round of continuous training. An odd place of the model, an invalid compressed stream
and a count beyond a machine word stop it and leave the master as it was. Otherwise it brings the
weights of the stored model if that fits, and else what it brings without continuous training, which
are drawn weights whenever the generator accepts the law. -/
theorem firstRound_continuous (hstate : m.state = .awaiting job source)
    (hcontinuous : m.training.isContinuous = true) (results : List (Payload Float)) :
    (∀ e, StopsRecovery m e → m.round results = ⟨m, [], .error e⟩) ∧
    (∀ stored, Recovers m job.model stored →
      (m.round results).master.phase = .aggregating ∧ (m.round results).master.iteration = 1 ∧
        (m.round results).result =
          .ok ⟨job.model.layout.shapes.map fun p => (p.1, stored.model.parameters.tensor p.1),
            Totals.zero, 0⟩) ∧
    ((∀ e, ¬StopsRecovery m e) → (∀ stored, ¬Recovers m job.model stored) →
      (m.round results).result = ((withoutRecovery m).round results).result ∧
      (m.round results).master.state = ((withoutRecovery m).round results).master.state ∧
      ∀ f, m.tape.draws source.law = .ok f →
        (m.round results).master.phase = .aggregating ∧ (m.round results).master.iteration = 1 ∧
          ∃ weights, (m.round results).result = .ok ⟨weights, Totals.zero, 0⟩) := by
  refine ⟨fun e hstop => ?_, fun stored hfits => ?_, fun hstops hrecovers => ?_⟩
  · have hfirst := firstModel_of_recover source hcontinuous (recover_of_stops job.model hstop)
    exact round_of_firstModel_error hstate results hfirst
  · have hfirst := firstModel_of_recover source hcontinuous (recover_of_recovers hfits)
    rw [ok_bind] at hfirst
    rw [round_of_firstModel hstate results hfirst, parameters_of_same hfits.2.1]
    exact ⟨rfl, rfl, rfl⟩
  · obtain ⟨notice, hrecover⟩ := recover_of_neither hstops hrecovers
    have hfirst := firstModel_of_recover source hcontinuous hrecover
    rw [ok_bind] at hfirst
    dsimp only at hfirst
    have hfresh := firstModel_of_not_continuous job.model source (isContinuous_withoutRecovery m)
    have hfreshState : (withoutRecovery m).state = .awaiting job source := hstate
    change _ = ([], job.model.drawWeights source m.tape) at hfresh
    cases hdraw : job.model.drawWeights source m.tape with
    | error e =>
      rw [hdraw] at hfirst hfresh
      rw [round_of_firstModel_error hstate results hfirst,
        round_of_firstModel_error hfreshState results hfresh]
      refine ⟨rfl, rfl, fun f hlaw => ?_⟩
      obtain ⟨drawn, hok⟩ := drawWeights_ok hlaw job.model
      rw [hdraw] at hok
      cases hok
    | ok drawn =>
      rw [hdraw] at hfirst hfresh
      rw [round_of_firstModel hstate results hfirst,
        round_of_firstModel hfreshState results hfresh]
      exact ⟨rfl, rfl, fun _ _ => ⟨rfl, rfl, _, rfl⟩⟩

end FirstRound

section Sample

/-- The header of a compressed file and a block of the kind that does not exist. -/
def brokenFile : Bytes :=
  [0x1f, 0x8b, 8, 0, 0, 0, 0, 0, 0, 3, 7]

/-- A master of a model without columns that trains on from the broken file. -/
def brokenMaster : Master where
  config := ⟨[], none, [], [], [], .int 1, [], [], 0, .zscale⟩
  training := (TrainingConfig.initial.set .continuousTraining (.bool true)).set .checkpointPath
    (.text "model")
  initializer := none
  tape := Tape.linear 1 0
  checkpoint := .file brokenFile
  state := .awaiting ⟨Model.blank ⟨[], [], [], [], [], 0, [], 0⟩, ⟨.sgd, .int 1, 0, []⟩⟩ (.range 0 1)

theorem firstRound_broken : brokenMaster.round [] = ⟨brokenMaster, [], .error .deflate⟩ :=
  (firstRound_continuous rfl rfl []).1 .deflate
    (Or.inr ⟨rfl, Or.inl rfl, brokenFile, rfl, rfl⟩)

end Sample

end WideDeep.Proofs
