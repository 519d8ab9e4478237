import WideDeep.Decimal.Reading
import WideDeep.Text.Quoted

/-!
# The command line

Arguments are options with their values, `--name value` or `--name=value`, where a name may be cut
short as long as only one option starts that way. A name that several options start with is refused
before anything else. Nothing but options is accepted, but what is none is reported last: first the
options are taken one by one, and then those that are missing are named.
-/

namespace WideDeep

inductive CommandOption where
  | help
  | columns
  | trainData
  | validData
  | epochs
  | workers
  | learningRate
  | normType
  | continuous
  | checkpoint
  deriving DecidableEq

namespace CommandOption

def all : List CommandOption :=
  [help, columns, trainData, validData, epochs, workers, learningRate, normType, continuous,
   checkpoint]

def name : CommandOption → String
  | help => "--help"
  | columns => "--columns"
  | trainData => "--train-data"
  | validData => "--valid-data"
  | epochs => "--epochs"
  | workers => "--workers"
  | learningRate => "--learning-rate"
  | normType => "--norm-type"
  | continuous => "--continuous"
  | checkpoint => "--checkpoint"

def takesValue : CommandOption → Bool
  | help => false
  | continuous => false
  | _ => true

/-- The options whose name starts with a text; one whose name is the text stands alone. -/
def matching (text : List Char) : List CommandOption :=
  match all.find? fun o => o.name.toList == text with
  | some o => [o]
  | none => all.filter fun o => text.isPrefixOf o.name.toList

end CommandOption

structure Options where
  columns : String
  trainData : String
  validData : Option String
  epochs : Int
  workers : Int
  learningRate : Float
  norm : String
  continuous : Bool
  checkpoint : Option String

inductive UsageError where
  | ambiguous (argument : String) (candidates : List CommandOption)
  | unexpectedValue (option : CommandOption) (value : String)
  | missingValue (option : CommandOption)
  | notInteger (option : CommandOption) (value : String)
  | notNumber (option : CommandOption) (value : String)
  | missingOptions (options : List CommandOption)
  | unrecognized (arguments : List String)
  deriving DecidableEq

namespace UsageError

def message : UsageError → String
  | ambiguous argument candidates =>
    s!"ambiguous option: {argument} could match " ++
      String.intercalate ", " (candidates.map CommandOption.name)
  | unexpectedValue option value =>
    s!"argument {option.name}: ignored explicit argument {Text.quoted value}"
  | missingValue option => s!"argument {option.name}: expected one argument"
  | notInteger option value => s!"argument {option.name}: invalid int value: {Text.quoted value}"
  | notNumber option value => s!"argument {option.name}: invalid float value: {Text.quoted value}"
  | missingOptions options =>
    "the following arguments are required: " ++
      String.intercalate ", " (options.map CommandOption.name)
  | unrecognized arguments =>
    "unrecognized arguments: " ++ String.intercalate " " arguments

end UsageError

/-- How the reading of a command line ends if there is nothing to run. -/
inductive Refusal where
  | helpWanted
  | usage (error : UsageError)
  deriving DecidableEq

def Refusal.code : Refusal → Nat
  | helpWanted => 0
  | usage _ => 2

namespace CommandLine

inductive Token where
  | value (text : String)
  | option (option : CommandOption) (value : Option String)
  | ambiguous (argument : String) (candidates : List CommandOption)
  | unknown (argument : String)
  | separator

def withoutBreak (cs : List Char) : List Char :=
  if cs.getLast? == some (Char.ofNat 10) then cs.dropLast else cs

/-- Whether a text after a minus sign is a decimal number without exponent. A line break may
follow. -/
def isNumeral (cs : List Char) : Bool :=
  let isDigit (c : Char) : Bool := (Text.digit? c).isSome
  let body := withoutBreak cs
  match body.dropWhile isDigit with
  | [] => !body.isEmpty
  | '.' :: fraction => !fraction.isEmpty && fraction.all isDigit
  | _ => false

/-- An argument that names no option: a value if it is a negative number or holds a space. -/
def unnamed (argument : String) : Token :=
  let cs := argument.toList
  if isNumeral (cs.drop 1) || cs.contains ' ' then .value argument else .unknown argument

/-- An argument that starts with two hyphens. Its name ends before an equality sign. -/
def longToken (argument : String) : Token :=
  let cs := argument.toList
  let name := cs.takeWhile (· != '=')
  let value : Option String :=
    if name.length < cs.length then some (String.ofList (cs.drop (name.length + 1))) else none
  match CommandOption.matching name with
  | [] => unnamed argument
  | [o] => .option o value
  | candidates => .ambiguous argument candidates

/-- The letter for help with what follows it. The letter may be repeated, and other letters behind
it do not matter. Behind an equality sign comes a value, and a hyphen begins one. -/
def helpToken (rest : List Char) : Token :=
  match rest.dropWhile (· == 'h') with
  | '=' :: value => .option .help (some (String.ofList value))
  | '-' :: value => .option .help (some (String.ofList ('-' :: value)))
  | _ => .option .help none

def shortToken (argument : String) : Token :=
  match argument.toList.drop 1 with
  | 'h' :: rest => helpToken rest
  | _ => unnamed argument

def token (argument : String) : Token :=
  match argument.toList with
  | ['-', '-'] => .separator
  | '-' :: '-' :: _ => longToken argument
  | '-' :: _ :: _ => shortToken argument
  | _ => .value argument

structure Taken where
  columns : Option String := none
  trainData : Option String := none
  validData : Option String := none
  epochs : Int := 20
  workers : Int := 4
  learningRate : Float := 0.003
  norm : String := "ZSCALE"
  continuous : Bool := false
  checkpoint : Option String := none
  others : List String := []

namespace Taken

def withValue (t : Taken) (o : CommandOption) (value : String) : Except Refusal Taken :=
  let integer : Except Refusal Int :=
    match Decimal.readInt? value with
    | some n => .ok n
    | none => .error (.usage (.notInteger o value))
  match o with
  | .help => .error .helpWanted
  | .columns => .ok { t with columns := some value }
  | .trainData => .ok { t with trainData := some value }
  | .validData => .ok { t with validData := some value }
  | .epochs => integer.map fun n => { t with epochs := n }
  | .workers => integer.map fun n => { t with workers := n }
  | .learningRate =>
    match Decimal.read? value with
    | some x => .ok { t with learningRate := x }
    | none => .error (.usage (.notNumber o value))
  | .normType => .ok { t with norm := value }
  | .continuous => .ok { t with continuous := true }
  | .checkpoint => .ok { t with checkpoint := some value }

def withOther (t : Taken) (argument : String) : Taken :=
  { t with others := t.others ++ [argument] }

/-- Take the options one by one. Nothing behind a separator is an option. -/
def take (t : Taken) : List String → Except Refusal Taken
  | [] => .ok t
  | argument :: rest =>
    match token argument with
    | .value _ => take (t.withOther argument) rest
    | .unknown _ => take (t.withOther argument) rest
    | .ambiguous _ candidates => .error (.usage (.ambiguous argument candidates))
    | .separator => .ok { t with others := t.others ++ argument :: rest }
    | .option o (some value) =>
      if o.takesValue then
        match t.withValue o value with
        | .ok t => take t rest
        | .error e => .error e
      else .error (.usage (.unexpectedValue o value))
    | .option o none =>
      if o.takesValue then
        match rest with
        | [] => .error (.usage (.missingValue o))
        | next :: rest =>
          match token next with
          | .value value =>
            match t.withValue o value with
            | .ok t => take t rest
            | .error e => .error e
          | _ => .error (.usage (.missingValue o))
      else
        match t.withValue o "" with
        | .ok t => take t rest
        | .error e => .error e

/-- The options, if the required ones are there and nothing else is. -/
def finish (t : Taken) : Except Refusal Options :=
  match t.columns, t.trainData with
  | some columns, some trainData =>
    if t.others.isEmpty then
      .ok ⟨columns, trainData, t.validData, t.epochs, t.workers, t.learningRate, t.norm,
        t.continuous, t.checkpoint⟩
    else .error (.usage (.unrecognized t.others))
  | columns, trainData =>
    let missing : List CommandOption :=
      (if columns.isNone then [.columns] else []) ++ if trainData.isNone then [.trainData] else []
    .error (.usage (.missingOptions missing))

end Taken

def shown (o : CommandOption) : String :=
  let value := if o.takesValue then o.name ++ " VALUE" else o.name
  if o = .columns || o = .trainData then value else "[" ++ value ++ "]"

def usage : String :=
  "usage: " ++ String.intercalate " " (CommandOption.all.map shown)

/-- The first name before a separator that several options start with. -/
def ambiguity? : List String → Option UsageError
  | [] => none
  | argument :: rest =>
    match token argument with
    | .separator => none
    | .ambiguous _ candidates => some (.ambiguous argument candidates)
    | _ => ambiguity? rest

def parse (arguments : List String) : Except Refusal Options :=
  match ambiguity? arguments with
  | some e => .error (.usage e)
  | none => do (← Taken.take {} arguments).finish

end CommandLine

end WideDeep
