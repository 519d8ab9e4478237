import Mathlib.Tactic
import WideDeep.Proofs.CheckpointFiles
import WideDeep.Proofs.ConfiguredColumns
import WideDeep.Proofs.PlannedLayouts
import WideDeep.Proofs.Recovery
import WideDeep.Proofs.TrainingEpochs

/-!
# Training runs

A run begins with a first broadcast, goes on epoch by epoch until the error has not improved for as
many epochs as its patience, or until the epochs are used up, and ends with a halt. The checkpoint
that it leaves holds the weights on which the least error was measured.
-/

namespace WideDeep.Proofs

section Weights

variable {workers : List (Worker Float32)} {first : Broadcast Float32 Float} {start job : Job Float32}
  {rounds : List (Broadcast Float32 Float)}

/-- Each broadcast has the weights of a model of the layout with which the run began, and the number
of its round. -/
theorem rounds_weights (hfirst : first = ⟨start.model.parameters, Totals.zero, 0⟩)
    (h : Rounds workers first start rounds job) :
    job.model.layout = start.model.layout ∧
      ∀ (k : Nat) (b : Broadcast Float32 Float), (first :: rounds)[k]? = some b → b.iteration = k ∧
        ∃ m : Model Float32, m.layout = start.model.layout ∧ m.parameters = b.weights := by
  induction h with
  | none =>
    refine ⟨rfl, fun k b hb => ?_⟩
    cases k with
    | zero =>
      cases hb
      subst hfirst
      exact ⟨rfl, start.model, rfl, rfl⟩
    | succ k => cases hb
  | @round before job next payloads totals gradients earlier computed summed moved ih =>
    obtain ⟨hlayout, hbefore⟩ := ih
    have hnext : next.model.layout = start.model.layout := by
      have hmoved : (job.move gradients).1 = next := congrArg Prod.fst moved
      rw [← hmoved]
      exact hlayout
    refine ⟨hnext, fun k b hb => ?_⟩
    rw [← List.cons_append, List.getElem?_append] at hb
    split at hb
    · exact hbefore k b hb
    · rename_i hk
      obtain ⟨hlt, rfl⟩ := List.getElem?_eq_some_iff.mp hb
      rw [List.length_singleton, List.length_cons] at hlt
      rw [List.length_cons] at hk
      have hplace : before.length + 1 = k := by omega
      refine ⟨?_, next.model, hnext, ?_⟩
      · simp [hplace]
      · simp

end Weights

section Beginnings

variable {s : RunSetup} {m : Master}

lemma restore_layout {model restored : Model Float32} {bytes : Bytes}
    (h : Master.restore model bytes = .ok restored) : restored.layout = model.layout := by
  obtain ⟨stored, -, hupdate⟩ := bind_eq_ok.mp h
  rw [(update_eq_ok.mp hupdate).2]
  rfl

lemma recover_layout {model restored : Model Float32} (h : (m.recover model).2 = .ok (some restored)) :
    restored.layout = model.layout := by
  unfold Master.recover at h
  split at h
  · cases h
  · split at h
    · cases h
    · cases h
    · split at h
      · rename_i hrestore
        cases h
        exact restore_layout hrestore
      · split at h <;> cases h

lemma firstModel_layout {model drawn : Model Float32} {source : Initializer} {notices : List Notice}
    {tape : Tape} (h : m.firstModel model source = (notices, .ok (drawn, tape))) :
    drawn.layout = model.layout := by
  unfold Master.firstModel at h
  generalize hsource : (if m.training.isContinuous = true then m.recover model
    else ([], .ok none)) = recovery at h
  obtain ⟨found, hfound, hrest⟩ := bind_eq_ok.mp (Prod.mk.inj h).2
  cases found with
  | none =>
    obtain ⟨⟨ps, t⟩, -, hdone⟩ := bind_eq_ok.mp hrest
    cases hdone
    rfl
  | some restored =>
    cases hrest
    subst hsource
    split at hfound
    · exact recover_layout hfound
    · cases hfound

/-- A run begins with a job and the broadcast of its weights. -/
def Begins (s : RunSetup) (first : Broadcast Float32 Float) (start : Job Float32) : Prop :=
  ∃ m, (Master.make s.config s.training none s.tape s.checkpoint).start = .ok m ∧
    (m.round []).result = .ok first ∧ (m.round []).master.state = .aggregating start 1

lemma begins_of_start {first : Broadcast Float32 Float}
    (hstart : (Master.make s.config s.training none s.tape s.checkpoint).start = .ok m)
    (hround : (m.round []).result = .ok first) :
    ∃ start, Begins s first start ∧ s.config.layout = .ok start.model.layout ∧
      first = ⟨start.model.parameters, Totals.zero, 0⟩ := by
  obtain ⟨-, layout, optimizer, source, hlayout, -, -, rfl⟩ := start_eq_ok hstart
  obtain ⟨awaiting, hawaiting⟩ : ∃ awaiting : Master, awaiting =
    { Master.make s.config s.training none s.tape s.checkpoint with
      state := .awaiting ⟨Model.blank layout, optimizer⟩ source } := ⟨_, rfl⟩
  have hstate : awaiting.state = .awaiting ⟨Model.blank layout, optimizer⟩ source := by rw [hawaiting]
  rw [← hawaiting] at hstart hround
  cases hfirst : awaiting.firstModel (Model.blank layout) source with
  | mk notices result =>
    cases result with
    | error e =>
      rw [round_of_firstModel_error hstate [] hfirst] at hround
      cases hround
    | ok drawn =>
      obtain ⟨model, tape⟩ := drawn
      have hrun := round_of_firstModel hstate [] hfirst
      rw [hrun] at hround
      cases hround
      refine ⟨⟨model, optimizer⟩, ⟨awaiting, hstart, by rw [hrun], by rw [hrun]⟩, ?_, rfl⟩
      have hmodel : model.layout = layout := firstModel_layout hfirst
      rw [hmodel]
      exact hlayout

end Beginnings

section Ends

/-- A run ends behind its errors: when the patience is used up for the first time, or else when the
epochs are. -/
structure EndsInTime (patience : Document) (epochs : Nat) (errors : List Float) : Prop where
  atMost : errors.length ≤ epochs
  earlier : ∀ e, 1 ≤ e → e < errors.length →
    Training.isOver patience (e - bestEpoch (errors.take e)) = .ok false
  ended : errors.length = epochs ∨ 1 ≤ errors.length ∧
    Training.isOver patience (errors.length - bestEpoch errors) = .ok true

/-- The labelled validation records, if there are any. -/
def validation (labels : Labelling) (assembler : Assembler) :
    Option Frame → Except Error (Option (Dataset Float32))
  | none => .ok none
  | some frame => (labels.run assembler frame).2.map some

/-- The workers of a run share the records that the labelling keeps. -/
def Employs (s : RunSetup) (train : Frame) (valid : Option Frame)
    (workers : List (Worker Float32)) : Prop :=
  ∃ assembler labels trainData validData, s.config.assembler = .ok assembler ∧
    Training.labelling s = .ok labels ∧ (labels.run assembler train).2 = .ok trainData ∧
    validation labels assembler valid = .ok validData ∧
    Training.makeWorkers s trainData validData = .ok workers

variable {s : RunSetup} {workers : List (Worker Float32)} {notices : List Notice}
  {result : RunResult}

lemma roundCount_eq_ok {count : Nat} (h : Training.roundCount s = .ok count) :
    ∃ epochs, s.training.integerOf .epochs = .ok epochs ∧ count = epochs.toNat := by
  obtain ⟨epochs, hepochs, hrest⟩ := bind_eq_ok.mp h
  refine ⟨epochs, hepochs, ?_⟩
  split at hrest
  · cases hrest
  · cases hrest
    rfl

/-- Rounds that end well have begun with a first broadcast, and end with a halt. -/
lemma runRounds_eq_ok {valid : Option (Dataset Float32)}
    (h : Training.runRounds s workers valid = (notices, .ok result)) :
    ∃ m first count made final,
      (Master.make s.config s.training none s.tape s.checkpoint).start = .ok m ∧
      (m.round []).result = .ok first ∧ Training.roundCount s = .ok count ∧
      Training.epochs s workers count 1
        ⟨(m.round []).master, first, History.initial, 0, none⟩ = (made, .ok final) ∧
      final.master.halt = .ok result.master ∧ result.history = final.history ∧
      result.saved = final.saved := by
  unfold Training.runRounds at h
  dsimp only at h
  cases hstart : (Master.make s.config s.training none s.tape s.checkpoint).start with
  | error e =>
    rw [hstart] at h
    cases (Prod.mk.inj h).2
  | ok m =>
    rw [hstart] at h
    dsimp only at h
    cases hfirst : (m.round []).result with
    | error e =>
      rw [hfirst] at h
      cases (Prod.mk.inj h).2
    | ok first =>
      cases hcount : Training.roundCount s with
      | error e =>
        rw [hfirst, hcount] at h
        cases (Prod.mk.inj h).2
      | ok count =>
        rw [hfirst, hcount] at h
        obtain ⟨final, hfinal, hrest⟩ := bind_eq_ok.mp (Prod.mk.inj h).2
        obtain ⟨halted, hhalted, hrest⟩ := bind_eq_ok.mp hrest
        have hdone : result.master = halted ∧ result.history = final.history ∧
            result.saved = final.saved := by
          split at hrest
          · obtain ⟨evaluation, -, hresult⟩ := bind_eq_ok.mp hrest
            cases hresult
            exact ⟨rfl, rfl, rfl⟩
          · cases hrest
            exact ⟨rfl, rfl, rfl⟩
        obtain ⟨hmaster, hhistory, hsaved⟩ := hdone
        exact ⟨m, first, count, _, final, rfl, hfirst, rfl, Prod.ext rfl hfinal, hmaster ▸ hhalted,
          hhistory, hsaved⟩

/-- A run that ends well has labelled its records and found its workers. -/
lemma run_eq_ok {train : Frame} {valid : Option Frame}
    (h : Training.run s train valid = (notices, .ok result)) :
    ∃ workers validData made, Employs s train valid workers ∧
      Training.runRounds s workers validData = (made, .ok result) := by
  unfold Training.run at h
  cases hassembler : s.config.assembler with
  | error e =>
    rw [hassembler] at h
    cases (Prod.mk.inj h).2
  | ok assembler =>
    cases hlabels : Training.labelling s with
    | error e =>
      rw [hassembler, hlabels] at h
      cases (Prod.mk.inj h).2
    | ok labels =>
      rw [hassembler, hlabels] at h
      dsimp only at h
      cases htrain : (labels.run assembler train).2 with
      | error e =>
        rw [htrain] at h
        cases (Prod.mk.inj h).2
      | ok trainData =>
        rw [htrain] at h
        dsimp only at h
        split at h
        · cases (Prod.mk.inj h).2
        · rename_i validData hpart
          have hvalid : validation labels assembler valid = .ok validData := by
            cases valid <;> exact hpart
          cases hworkers : Training.makeWorkers s trainData validData with
          | error e =>
            rw [hworkers] at h
            cases (Prod.mk.inj h).2
          | ok workers =>
            rw [hworkers] at h
            exact ⟨workers, validData, _,
              ⟨assembler, labels, trainData, validData, hassembler, hlabels, htrain, hvalid,
                hworkers⟩, Prod.ext rfl (Prod.mk.inj h).2⟩

end Ends

section Runs

variable {s : RunSetup} {workers : List (Worker Float32)} {notices : List Notice}

/-- A checkpoint holds weights: it is the file of a configured model with them, and unless a column
is embedded or wide twice, they are read back from it, plain or compressed. -/
def Holds (s : RunSetup) (bytes : Bytes) (weights : Parameters Float32) : Prop :=
  ∃ m : Model Float32, s.config.layout = .ok m.layout ∧ m.parameters = weights ∧
    ModelFile.write Binary.Stored.plain ModelFile.currentVersion (.ok s.config.norm)
      s.config.columns m = .ok bytes ∧
    (m.layout.embed.Nodup → m.layout.wide.Nodup → ∀ strict container,
      container = bytes ∨ Gzip.expand container = .ok bytes → ∃ loaded,
        StoredModel.load strict container = ([], .ok loaded) ∧ loaded.model.parameters = weights)

/-- A file that holds weights is loaded as a model with them. -/
lemma load_of_holds {bytes file : Bytes} {weights : Parameters Float32} (hembed : s.config.embed.Nodup)
    (hwide : s.config.wide.Nodup) (h : Holds s bytes weights)
    (hfile : file = bytes ∨ Gzip.expand file = .ok bytes) :
    ∃ loaded, StoredModel.load true file = ([], .ok loaded) ∧ loaded.model.parameters = weights := by
  obtain ⟨m, hlayout, -, -, hload⟩ := h
  obtain ⟨hembedIds, hwideIds, -⟩ := tables_of_layout hlayout
  exact hload (hembedIds ▸ hembed) (hwideIds ▸ hwide) true file hfile

/-- What is stored of a broadcast of a run holds its weights. -/
lemma holds_of_stored {first b : Broadcast Float32 Float} {start job : Job Float32}
    {rounds : List (Broadcast Float32 Float)} {k : Nat} {bytes : Bytes}
    (hlayout : s.config.layout = .ok start.model.layout)
    (hfirst : first = ⟨start.model.parameters, Totals.zero, 0⟩)
    (hrounds : Rounds workers first start rounds job) (hb : (first :: rounds)[k]? = some b)
    (h : Training.stored s b.weights = .ok bytes) : b.iteration = k ∧ Holds s bytes b.weights := by
  obtain ⟨hiteration, m, hm, hweights⟩ := (rounds_weights hfirst hrounds).2 k b hb
  rw [← hm] at hlayout
  rw [← hweights] at h ⊢
  exact ⟨hiteration, m, hlayout, rfl, stored_eq_ok hlayout h,
    fun hembed hwide strict _ hcontainer => load_stored hlayout hembed hwide h strict hcontainer⟩

lemma follows_nil {first : Broadcast Float32 Float} {start : Job Float32} {m : Master}
    (hstate : m.state = .aggregating start 1) :
    Follows s first [] start ⟨m, first, History.initial, 0, none⟩ :=
  ⟨hstate, rfl, rfl, rfl, rfl, rfl, rfl, fun _ _ hk => nomatch hk⟩

/-- What a run that ends well has done. It has gone on for as many epochs as the patience and the
configuration let it, and has taken a step in each of them. Its history has their errors and the
first least one among them, and its checkpoint holds the weights on which that was measured. -/
theorem run_best (train : Frame) (valid : Option Frame) (result : RunResult)
    (h : Training.run s train valid = (notices, .ok result)) :
    ∃ workers first start rounds last epochs,
      Employs s train valid workers ∧ Begins s first start ∧ Rounds workers first start rounds last ∧
      s.training.integerOf .epochs = .ok epochs ∧
      EndsInTime (s.training.value .patience) epochs.toNat (errorsOf rounds) ∧
      result.history = ⟨rounds.map (·.totals.meanTrainError),
        rounds.map (·.totals.meanValidationError), bestEpoch (errorsOf rounds),
        leastError (errorsOf rounds)⟩ ∧
      result.master.state = .converged last (rounds.length + 1) ∧
      (s.saves = true → ∀ k, bestEpoch (errorsOf rounds) = k + 1 → ∃ best bytes,
        (first :: rounds)[k]? = some best ∧ best.iteration = k ∧
          result.saved = some bytes ∧ Holds s bytes best.weights) := by
  obtain ⟨workers, validData, made, hworkers, hruns⟩ := run_eq_ok h
  obtain ⟨m, first, count, made, final, hstart, hfirst, hcount, hepochs, hhalt, hhistory, hsaved⟩ :=
    runRounds_eq_ok hruns
  obtain ⟨start, hbegins, hlayout, hweights⟩ := begins_of_start hstart hfirst
  obtain ⟨epochs, hconfigured, rfl⟩ := roundCount_eq_ok hcount
  have hstate : (m.round []).master.state = .aggregating start 1 := by
    obtain ⟨m', hstart', -, hstate⟩ := hbegins
    cases hstart.symm.trans hstart'
    exact hstate
  obtain ⟨rounds, last, hrounds, hfollows, hmost, hearlier, hended⟩ :=
    follows_epochs Rounds.none (follows_nil hstate) hepochs
  rw [List.nil_append] at hrounds hfollows hearlier hended
  have hlength := length_errorsOf rounds
  refine ⟨workers, first, start, rounds, last, epochs, hworkers, hbegins, hrounds, hconfigured,
    ⟨hlength.trans_le hmost, fun e he he' => hearlier e he (hlength ▸ he'), hlength.symm ▸ hended⟩,
    ?_, ?_, fun hsaves k hk => ?_⟩
  · rw [hhistory, ← hfollows.trainErrors, ← hfollows.validationErrors, ← hfollows.best,
      ← hfollows.least]
  · rw [halt_of_aggregating hfollows.master] at hhalt
    rw [← Except.ok.inj hhalt]
  · obtain ⟨best, bytes, hbest, hstored, hbytes⟩ := hfollows.saved hsaves k hk
    obtain ⟨hiteration, hholds⟩ := holds_of_stored hlayout hweights hrounds hbest hstored
    exact ⟨best, bytes, hbest, hiteration, hsaved.trans hbytes, hholds⟩

end Runs

section Sample

/-- A run of six epochs at most that is given up after one without improvement. Its rate is so large
that the weights leap over the best ones. -/
def shortRun : RunSetup where
  config := skyConfig
  training := (((((TrainingConfig.initial.set .optimizer (.text "sgd")).set .epochs (.int 6)).set
    .patience (.int 1)).set .learningRate (.real 1.5)).set .initMin (.int 200)).set .initMax (.int 451)
  weight := .null
  tape := Tape.linear 1 0
  checkpoint := .noPath
  saves := true

def shortFrame : Frame :=
  ⟨3, [("sky", [.text "clear", .text "overcast", .text "clear"]),
    ("clicked", [.text "1", .text "0", .text "0"])]⟩

/-- The weights of a model file, or those of a model, number by number. -/
def weightsOf (m : Model Float32) : List (List Float32) :=
  m.parameters.map (·.2.data)

def storedNumbers? (bytes : Bytes) : Option (List (List Float32)) :=
  (StoredModel.load true bytes).2.toOption.map fun m => weightsOf m.model

/-- Whether a run has ended after its third epoch with the second one as the best, and keeps other
weights than the last ones. -/
def endsAfterBest : Except Error RunResult → Bool
  | .ok result =>
    result.history.bestIteration = 2 && result.history.trainErrors.length = 3 &&
      (result.saved.bind storedNumbers?).isSome &&
      result.saved.bind storedNumbers? ≠ result.master.model?.map weightsOf
  | .error _ => false

set_option maxRecDepth 20000 in
lemma shortRun_ends : endsAfterBest (Training.run shortRun shortFrame none).2 = true := by
  decide +kernel

/-- The errors of the three epochs are 28215, 766 and 2719, up to their fractions. -/
theorem run_best_short : ∃ notices result workers first start rounds last best bytes,
    Training.run shortRun shortFrame none = (notices, .ok result) ∧
    Rounds workers first start rounds last ∧ rounds.length = 3 ∧
    result.history.bestIteration = 2 ∧ result.master.state = .converged last 4 ∧
    (first :: rounds)[1]? = some best ∧ result.saved = some bytes ∧ Holds shortRun bytes best.weights ∧
    best.weights ≠ last.model.parameters := by
  have hends := shortRun_ends
  cases hrun : Training.run shortRun shortFrame none with
  | mk notices outcome =>
    rw [hrun] at hends
    cases outcome with
    | error e => cases hends
    | ok result =>
      simp only [endsAfterBest, Bool.and_eq_true, decide_eq_true_eq] at hends
      obtain ⟨⟨⟨hbest, hlength⟩, hsome⟩, hmoved⟩ := hends
      obtain ⟨workers, first, start, rounds, last, epochs, -, -, hrounds, -, -, hhistory, hstate,
        hsaved⟩ := run_best shortFrame none result hrun
      rw [hhistory] at hlength hbest
      have hthree : rounds.length = 3 := (List.length_map _).symm.trans hlength
      rw [hthree] at hstate
      obtain ⟨best, bytes, hplace, -, hbytes, hholds⟩ := hsaved rfl 1 hbest
      have hread : storedNumbers? bytes = some (best.weights.map (·.2.data)) := by
        obtain ⟨loaded, hloaded, hweights⟩ := load_of_holds (List.nodup_singleton 0)
          (List.nodup_singleton 0) hholds (Or.inl rfl)
        unfold storedNumbers? weightsOf
        rw [hloaded, ← hweights]
        rfl
      refine ⟨notices, result, workers, first, start, rounds, last, best, bytes, rfl, hrounds, hthree,
        by rw [hhistory]; exact hbest, hstate, hplace, hbytes, hholds, fun hsame => hmoved ?_⟩
      rw [hbytes, Option.bind_some, hread, hsame]
      unfold Master.model?
      rw [hstate]
      rfl

end Sample

end WideDeep.Proofs
