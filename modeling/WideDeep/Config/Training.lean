import WideDeep.Column.Record
import WideDeep.Text.Case

/-!
# Training configuration

The settings of a training run. Settings are given by name in any case and keep the form in which
they were given; they are interpreted where they are used.
-/

namespace WideDeep

inductive Setting where
  | checkpointPath
  | continuousTraining
  | epochs
  | initMax
  | initMin
  | initializer
  | learningRate
  | negTags
  | numWorkers
  | optimizer
  | patience
  | posTags
  | saveDir
  | seed
  | targetColumn
  deriving DecidableEq

namespace Setting

def all : List Setting :=
  [checkpointPath, continuousTraining, epochs, initMax, initMin, initializer, learningRate,
   negTags, numWorkers, optimizer, patience, posTags, saveDir, seed, targetColumn]

def name : Setting → String
  | checkpointPath => "checkpoint_path"
  | continuousTraining => "continuous_training"
  | epochs => "epochs"
  | initMax => "init_max"
  | initMin => "init_min"
  | initializer => "initializer"
  | learningRate => "learning_rate"
  | negTags => "neg_tags"
  | numWorkers => "num_workers"
  | optimizer => "optimizer"
  | patience => "patience"
  | posTags => "pos_tags"
  | saveDir => "save_dir"
  | seed => "seed"
  | targetColumn => "target_column"

def ofName? (s : String) : Option Setting :=
  all.find? fun o => Text.upperAscii o.name == Text.upperAscii s

def default : Setting → Document
  | checkpointPath => .null
  | continuousTraining => .bool false
  | epochs => .int 20
  | initMax => .real 0.1
  | initMin => .real (-0.1)
  | initializer => .text "range"
  | learningRate => .real 0.003
  | negTags => .list [.text "0"]
  | numWorkers => .int 4
  | optimizer => .text "adam"
  | patience => .int 5
  | posTags => .list [.text "1"]
  | saveDir => .text "./experiments"
  | seed => .int 42
  | targetColumn => .text "clicked"

end Setting

structure TrainingConfig where
  value : Setting → Document

namespace TrainingConfig

def initial : TrainingConfig :=
  ⟨Setting.default⟩

def set (c : TrainingConfig) (s : Setting) (v : Document) : TrainingConfig :=
  ⟨fun o => if o = s then v else c.value o⟩

/-- A name that stands for the settings as a whole and for none of them. -/
def ownName : String := "self"

/-- Settings given by name, in order. The name of the whole is refused before all others. -/
def make (given : List (String × Document)) : Except Error TrainingConfig :=
  if given.any (·.1 == ownName) then .error .wrongType
  else
    given.foldlM
      (fun c p =>
        match Setting.ofName? p.1 with
        | some s => .ok (c.set s p.2)
        | none => .error (.unknownOption p.1))
      initial

def toDocument (c : TrainingConfig) : Document :=
  .table (Setting.all.map fun s => (s.name, c.value s))

def textOf (c : TrainingConfig) (s : Setting) : Except Error String :=
  match c.value s with
  | .text t => .ok t
  | _ => .error .notText

def integerOf (c : TrainingConfig) (s : Setting) : Except Error Int :=
  (c.value s).toWhole

/-- Check the seed: nothing, an integer that is not negative, or a list of such integers. -/
def checkSeed (c : TrainingConfig) : Except Error Unit :=
  let check (d : Document) : Except Error Unit := do
    if (← d.toWhole) < 0 then throw .invalidValue
  match c.value .seed with
  | .null => .ok ()
  | .list items => items.forM check
  | d => check d

def modelPlace? (c : TrainingConfig) : Option Document :=
  let place := c.value .checkpointPath
  if place.isAbsent then none else some place

/-- Whether a place of the model is given that is no path. -/
def hasOddPlace (c : TrainingConfig) : Bool :=
  c.modelPlace?.any fun place => place.text?.isNone

def isContinuous (c : TrainingConfig) : Bool :=
  !(c.value .continuousTraining).isAbsent

end TrainingConfig

end WideDeep
