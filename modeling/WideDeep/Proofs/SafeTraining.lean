import Mathlib.Tactic
import WideDeep.Proofs.AssembledFrames
import WideDeep.Proofs.ResumedTraining
import WideDeep.Proofs.ReturningRounds
import WideDeep.Proofs.SafeBatches

/-!
# Training on raw records

From a configuration that builds a model and a frame with tags, everything up to the gradients of the
workers is defined: the assembler, the normalized records, the logits of every part and every batch, and
gradients that fit the model. The frame must not share the names that are read, its integers must round
to doubles, and the round of the master needs factors that are numbers of the network.
-/

namespace WideDeep.Proofs
open Binary

section Training

variable {columns : List ColumnRecord} {options : ModelOptions} {c : ModelConfig} {l : Layout}
  {a : Assembler} {labels : Labelling} {f : Frame} {target : String} {tags : List Raw}
  {d : Dataset Float32}

/-- What a labelling makes of the records of a frame with valid tags: one record for each of them, of
the widths of the configuration, with its target and with one as its weight. -/
structure Prepared (c : ModelConfig) (labels : Labelling) (tags : List Raw) (d : Dataset Float32) :
    Prop where
  size : d.size = (tags.filter labels.isValid).length
  targets : d.samples.map (·.target) = labels.targets tags
  weights : ∀ s ∈ d.samples, s.weight = 1
  widths : d.denseWidth = c.dense.length ∧ d.embedWidth = c.embed.length ∧
    d.wideWidth = c.wide.length
  dense : ∀ s ∈ d.samples, s.inputs.dense.length = c.dense.length
  embed : ∀ s ∈ d.samples, s.inputs.embed.length = c.embed.length
  wide : ∀ s ∈ d.samples, s.inputs.wide.length = c.wide.length

/-- Some records can be split into any number of parts that can be listed, and every model of a layout
can be applied to each part and to each batch of a part. -/
def Scorable (l : Layout) (d : Dataset Float32) : Prop :=
  ∀ count : Int, -1 ≤ count → count < Dataset.mostCuts →
    ∃ parts, d.split count = .ok parts ∧ parts.length = count.toNat ∧
      ∀ part ∈ parts, ∀ m : Model Float32, m.layout = l →
        SafeBatch m part ∧ ∀ (size : Nat), ∀ b ∈ part.batches size, SafeBatch m (part.withSamples b)

/-- Any number of new workers can share some records, and others to validate on. They answer the
weights of every job of a layout with gradients of the names and shapes of the layout, and the round of
the master that gets their answers returns exactly if the factors of the step are numbers of the
network. -/
def Trainable (c : ModelConfig) (l : Layout) (d : Dataset Float32) : Prop :=
  ∀ (validation : Option (Dataset Float32)) (count : Int), (∀ v ∈ validation, Fitting l v) →
    1 ≤ count → count < Dataset.mostCuts →
    ∃ shares, Worker.shares count d validation = .ok shares ∧ shares.length = count.toNat ∧
      ∀ sizes : List Int, sizes.length = shares.length → (∀ n ∈ sizes, 0 < n) →
      ∀ (m : Master) (job : Job Float32) (i : Nat) (iteration : Int),
        m.state = .aggregating job i → job.model.layout = l →
        ∃ results : List (Payload Float),
          (shares.zip sizes).mapM (fun p => sends Float c job.model.parameters iteration p.1 p.2) =
            .ok results ∧
          (∀ r ∈ results, r.gradients.shapes = l.shapes) ∧
          ((∃ b, (m.round results).result = .ok b) ↔ ∀ place < job.model.parameters.length,
            InReach job.optimizer (stepsTaken job.optimizer.moments place))

lemma prepared_of_run (hlayout : c.layout = .ok l) (hassembler : c.assembler = .ok a)
    (htarget : labels.target = .text target) (htags : f.columns.lookup target = some tags)
    (hweight : Unweighted labels f) (hrun : (labels.run a f).2 = .ok d) : Prepared c labels tags d := by
  obtain ⟨hsize, htargets, hweights⟩ := kept_of_run htarget htags hweight hrun
  obtain ⟨hdense, hembed, hwide⟩ := ids_of_layout hlayout
  have hfit := fitting_of_run hlayout hassembler hrun
  refine ⟨hsize, htargets, hweights, ⟨?_, ?_, ?_⟩, ?_, ?_, ?_⟩
  · rw [← hdense, hfit.denseWidth]
  · rw [← hembed, hfit.embedWidth]
  · rw [← hwide, hfit.wideWidth]
  · exact hdense ▸ hfit.dense
  · exact hembed ▸ hfit.embed
  · exact hwide ▸ hfit.wide

lemma scorable_of_fitting (hlayout : c.layout = .ok l) (h : Fitting l d) : Scorable l d := by
  intro count hleast hmost
  have hl := ready_of_layout hlayout
  have hsplit := split_eq d hleast hmost
  refine ⟨_, hsplit, length_splitWith d _ _, ?_⟩
  rintro part hpart m rfl
  have hfit := fitting_of_split h hsplit part hpart
  exact ⟨safeBatch_of_fitting hl hfit, fun size b hb =>
    safeBatch_of_fitting hl (fitting_of_batches hfit b hb)⟩

lemma check_of_model {m : Model Float32} (h : DistinctTables m.layout) :
    Parameters.check m.layout.shapes m.parameters = .ok () :=
  check_of_perm (List.Perm.refl _) m.parameters_fit (names_nodup h)

lemma trainable_of_fitting (hlayout : c.layout = .ok l) (h : Fitting l d) : Trainable c l d := by
  intro validation count hvalidation hcount hmost
  obtain ⟨shares, hshares, hlength⟩ := exists_shares hcount hmost d validation
  have hfits := fitting_of_shares h hvalidation hshares
  refine ⟨shares, hshares, hlength, ?_⟩
  rintro sizes hsizes hpositive m job i iteration hstate rfl
  have htables := (ready_of_layout hlayout).distinct
  obtain ⟨results, hresults, hanswers, hshapes⟩ := mapM_sends_of_fitting (δ := Float) hlayout
    (check_of_model htables) hfits hsizes hpositive iteration
  refine ⟨results, hresults, hshapes, round_ok_iff hstate htables ?_ hshapes⟩
  rintro rfl
  rw [List.length_nil] at hanswers
  omega

/-- Training on raw records is safe. A configuration that builds a model also builds its assembler. A
frame with tags and without weights, of which all integers round to doubles, is normalized exactly if no
name that is read is shared by several of its columns, whatever its values are and whichever columns it
lacks. What is kept of it has the widths of the configuration, its parts and batches can be scored, and
rounds of training on it return as long as their factors are numbers of the network. -/
theorem training_safe (hconfig : ModelConfig.make columns options = .ok c) (hlayout : c.layout = .ok l)
    (hwritten : ∀ r ∈ columns, Written r) (htarget : labels.target = .text target)
    (htags : f.columns.lookup target = some tags) (hweight : Unweighted labels f) (hsized : WithinDoubles f) :
    ∃ a, c.assembler = .ok a ∧
      ((∃ d, (labels.run a f).2 = .ok d) ↔ f.isShared target = false ∧ Clear a f) ∧
      ∀ d, (labels.run a f).2 = .ok d →
        Prepared c labels tags d ∧ Scorable l d ∧ Trainable c l d := by
  obtain ⟨a, hassembler, hcomplete⟩ := assembler_of_make hconfig hwritten
  refine ⟨a, hassembler, run_ok_iff_clear hcomplete htarget htags hweight hsized, fun d hrun => ?_⟩
  have hfit := fitting_of_run hlayout hassembler hrun
  exact ⟨prepared_of_run hlayout hassembler htarget htags hweight hrun,
    scorable_of_fitting hlayout hfit, trainable_of_fitting hlayout hfit⟩

end Training

section Sample

/-- Three records, of which the last one has no valid tag. -/
def colourFrame : Frame :=
  ⟨3, [("colour", [.text "red", .missing, .text "blue"]), ("tag", [.text "1", .text "0", .text "?"])]⟩

def colourLabels : Labelling :=
  ⟨.text "tag", ["1"], ["0"], .null⟩

lemma written_colour : ∀ r ∈ [colourColumn], Written r := by
  refine List.forall_mem_singleton.mpr ⟨?_, ?_⟩
  · exact { colourColumn with name := some "colour", labels := ["red"] }
  · rfl

lemma withinDoubles_colour : WithinDoubles colourFrame := by
  intro column hcolumn v hv
  have htext : ∀ n : Int, v ≠ .int n := by
    rintro n rfl
    simp only [colourFrame, List.mem_cons, List.not_mem_nil, or_false] at hcolumn
    rcases hcolumn with rfl | rfl <;> simp at hv
  rintro ⟨n, hn, -⟩
  exact htext n hn

/-- A master with weights of one and a half and an optimizer that stands still. -/
def stillMaster : Master :=
  { Master.make twiceConfig TrainingConfig.initial none (Tape.linear 1 0) .noPath with
    state := .aggregating ⟨twiceModel, ⟨.sgd, .int 0, 0, []⟩⟩ 1 }

lemma inReach_still (steps : Nat) : InReach (⟨.sgd, .int 0, 0, []⟩ : Optimizer Float32) steps where
  decay := Or.inl (by decide +kernel)
  rate := ⟨doubleOfInt 0, rfl, by decide +kernel⟩

/-- A column that is embedded twice: two records of the frame are kept, each half of them can be scored,
and a round with two workers returns. -/
theorem training_safe_twice : ∃ a d parts shares results b, twiceConfig.assembler = .ok a ∧
    (colourLabels.run a colourFrame).2 = .ok d ∧ d.size = 2 ∧ d.embedWidth = 2 ∧
    d.split 2 = .ok parts ∧ parts.length = 2 ∧ (∀ part ∈ parts, SafeBatch twiceModel part) ∧
    Worker.shares 2 d none = .ok shares ∧
    (shares.zip [1, 4096]).mapM (fun p => sends Float twiceConfig twiceModel.parameters 0 p.1 p.2) =
      .ok results ∧
    (stillMaster.round results).result = .ok b := by
  have htarget : colourLabels.target = .text "tag" := rfl
  have htags : colourFrame.columns.lookup "tag" = some [.text "1", .text "0", .text "?"] := rfl
  obtain ⟨a, hassembler, hrun, hsafe⟩ := training_safe make_twice layout_twice written_colour htarget
    htags (Or.inl rfl) withinDoubles_colour
  have hshared : ∀ name, colourFrame.isShared name = false := isShared_of_nodup (by decide)
  have hclear : Clear a colourFrame := by
    intro id _
    cases keyAt a id with
    | none => rfl
    | some name => exact hshared name
  obtain ⟨d, hd⟩ := hrun.mpr ⟨hshared _, hclear⟩
  obtain ⟨hprepared, hscorable, htrainable⟩ := hsafe d hd
  obtain ⟨parts, hsplit, hlength, hparts⟩ := hscorable 2 (by decide) (by decide)
  obtain ⟨shares, hshares, hcount, hround⟩ :=
    htrainable none 2 (fun v hv => nomatch hv) (by decide) (by decide)
  obtain ⟨results, hresults, -, hreturns⟩ :=
    hround [1, 4096] hcount.symm (by decide) stillMaster _ 1 0 rfl rfl
  obtain ⟨b, hb⟩ := hreturns.mpr fun _ _ => inReach_still _
  exact ⟨a, d, parts, shares, results, b, hassembler, hd, hprepared.size.trans (by decide),
    hprepared.widths.2.1, hsplit, hlength, fun part hpart => (hparts part hpart twiceModel rfl).1,
    hshares, hresults, hb⟩

end Sample

end WideDeep.Proofs
