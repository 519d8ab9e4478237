import WideDeep.Text.Quoted

/-!
# Errors

Each constructor is one cause. `Error.kind` sorts the causes into the classes that callers
distinguish when they recover, and `Error.message` words those that have words of their own.
-/

namespace WideDeep

/-- The class of an error, as far as anything that handles errors tells them apart. -/
inductive ErrorKind where
  | invalidValue
  | shapeMismatch
  | wrongType
  | missingKey
  | missingAttribute
  | overflow
  | tensor
  | tensorIndex
  | phase
  | fileNotFound
  | malformedDocument
  | malformedModel
  | packing
  | deflate
  deriving DecidableEq

/-- Why the bytes of a model are refused. -/
inductive FormatFault where
  | unexpectedEnd (wanted : Int) (got : Nat)
  | invalidText
  | negativeLength (length : Int)
  | corruptContainer
  | unsupportedVersion (version : Int)
  | unknownNorm (name : String)
  | invalidColumn (reason : String)
  | embedTables (tables columns : List Int)
  | wideTables (tables columns : List Int)
  | noLayers
  | layerInputs (layer inputs previous : Nat)
  | firstLayer (inputs expected dense : Nat)
  | lastLayer (outputs : Nat) (activation : String)
  | unknownActivations (names : List String)
  | tableSizes (column : Int)
  | rejected (reason : String)
  deriving DecidableEq

/-- Which list of column ids a layout holds. -/
inductive ColumnRole where
  | dense
  | embed
  | wide
  deriving DecidableEq

/-- Which list of weights of evidence a column holds. -/
inductive EvidenceKind where
  | count
  | weighted
  deriving DecidableEq

inductive Phase where
  | uninitialized
  | awaitingFirstRound
  | aggregating
  | converged
  | failed
  deriving DecidableEq

def Phase.name : Phase → String
  | .uninitialized => "UNINITIALIZED"
  | .awaitingFirstRound => "AWAITING_FIRST_ROUND"
  | .aggregating => "AGGREGATING"
  | .converged => "CONVERGED"
  | .failed => "FAILED"

inductive Error where
  | invalidValue
  | wrongType
  | missingKey
  | notText
  | notColumn
  | overflow
  | tensorShape
  | tensorIndex
  | emptyTable
  | indexRange
  | factorRange
  | fileNotFound
  | malformedDocument
  | integerRange
  | deflate
  | unknownColumnType (shown : String) (column : Int)
  | evidenceCount (column : Int) (name : String) (kind : EvidenceKind) (found expected : Nat)
  | normMissing
  | unknownActivation (name : String)
  | embedWidthCount
  | activationCount
  | weightNames (missing unexpected : List String)
  | weightShape (name : String) (found expected : List Nat)
  | columnIds (role : ColumnRole) (own other : List Int)
  | activations (own other : List String)
  | rangeNotFinite (low high : String)
  | rangeReversed (low high : String)
  | unknownInitializer (name : String)
  | gradientNames (names : List String)
  | gradientShapes (name : String) (first second : List Nat)
  | workerGradients (names : List String)
  | gradientShape (name : String) (found expected : List Nat)
  | embedNotCategorical (columns : List String)
  | configuredActivations (activations layers : Nat)
  | unknownOption (name : String)
  | unknownOptimizer (name : String)
  | columnsMissing (columns : List Int)
  | targetMissing (shown : String)
  | noWeights
  | noResults (iteration : Nat)
  | roundRefused (phase : Phase)
  | initRefused (phase : Phase)
  | haltRefused (phase : Phase)
  | textTooLong (bytes : Nat)
  | format (fault : FormatFault)
  deriving DecidableEq

namespace Error

open Text

def ints (ns : List Int) : String :=
  bracketed (ns.map toString)

def texts (ss : List String) : String :=
  bracketed (ss.map quoted)

def shape (ns : List Nat) : String :=
  parenthesized (ns.map toString)

def kind : Error → ErrorKind
  | wrongType => .wrongType
  | missingKey => .missingKey
  | targetMissing _ => .missingKey
  | notText => .missingAttribute
  | notColumn => .missingAttribute
  | overflow => .overflow
  | tensorShape => .tensor
  | tensorIndex => .tensorIndex
  | emptyTable => .tensor
  | indexRange => .tensor
  | factorRange => .tensor
  | fileNotFound => .fileNotFound
  | malformedDocument => .malformedDocument
  | integerRange => .packing
  | deflate => .deflate
  | weightNames _ _ => .shapeMismatch
  | weightShape _ _ _ => .shapeMismatch
  | columnIds _ _ _ => .shapeMismatch
  | activations _ _ => .shapeMismatch
  | roundRefused _ => .phase
  | initRefused _ => .phase
  | haltRefused _ => .phase
  | format _ => .malformedModel
  | _ => .invalidValue

/-- A value that does not fit: the errors that stop a training job and that the reader of a model
reports as malformed data. -/
def isValue (e : Error) : Bool :=
  match e.kind with
  | .invalidValue => true
  | .shapeMismatch => true
  | .malformedDocument => true
  | _ => false

def isFile (e : Error) : Bool :=
  match e.kind with
  | .fileNotFound => true
  | .malformedModel => true
  | _ => false

def faultMessage : FormatFault → String
  | .unexpectedEnd wanted got =>
    s!"Unexpected end of model data, wanted {wanted} bytes, got {got}"
  | .invalidText => "Invalid utf string in model data: "
  | .negativeLength n => s!"Negative length {n} in model data"
  | .corruptContainer => "Corrupt gzip model data: "
  | .unsupportedVersion v => s!"Unsupported model format version {v}, expected 1"
  | .unknownNorm name => s!"Unknown norm type {quoted name} in model data"
  | .invalidColumn reason => s!"Invalid column stats record: {reason}"
  | .embedTables tables columns =>
    s!"Embedding tables {ints tables} do not match embed columns {ints columns}"
  | .wideTables tables columns =>
    s!"Wide tables {ints tables} do not match wide columns {ints columns}"
  | .noLayers => "Wide and deep record has no deep layers"
  | .layerInputs layer inputs previous =>
    s!"Deep layer {layer} expects {inputs} inputs, previous layer gives {previous}"
  | .firstLayer inputs expected dense =>
    s!"First deep layer has {inputs} inputs, columns give {expected} ({dense} dense + embeddings)"
  | .lastLayer outputs activation =>
    s!"Last deep layer must be linear with one output, got {outputs}/{activation}"
  | .unknownActivations names => s!"Unknown activations in model data: {texts names}"
  | .tableSizes column =>
    s!"Column {column} has different category sizes in wide and embedding tables"
  | .rejected reason => reason

def roleName : ColumnRole → String
  | .dense => "dense_column_ids"
  | .embed => "embed_column_ids"
  | .wide => "wide_column_ids"

def evidenceName : EvidenceKind → String
  | .count => "bin_count_woes"
  | .weighted => "bin_weighted_woes"

/-- The words of an error that has words of its own. -/
def message? : Error → Option String
  | unknownColumnType shown column => some s!"Unknown column type {shown} for column {column}"
  | evidenceCount column name which found expected =>
    some (s!"Column {column} ({name}): {evidenceName which} has {found} entries, " ++
      s!"expected {expected} (bins + missing)")
  | normMissing => some "Norm type is missing"
  | unknownActivation name => some s!"Unknown activation: {name}"
  | embedWidthCount => some "embed_outputs must have one entry per embed column"
  | activationCount => some "act_funcs must have one entry per hidden layer"
  | weightNames missing unexpected =>
    some s!"Weight names differ, missing: {texts missing}, unexpected: {texts unexpected}"
  | weightShape name found expected =>
    some s!"Shape of {name} is {shape found}, expected {shape expected}"
  | columnIds role own other =>
    some s!"{roleName role} differ: {ints own} vs {ints other}"
  | activations own other => some s!"Activations differ: {texts own} vs {texts other}"
  | rangeNotFinite low high => some s!"Range bounds must be finite, got [{low}, {high}]"
  | rangeReversed low high => some s!"min_value {low} is greater than max_value {high}"
  | unknownInitializer name => some s!"Unknown weight initializer: {name}"
  | gradientNames names =>
    some s!"Cannot combine gradients of different parameters: {texts names}"
  | gradientShapes name first second =>
    some s!"Gradient shapes of {name} differ: {shape first} vs {shape second}"
  | workerGradients names =>
    some s!"Worker gradients do not match model parameters: {texts names}"
  | gradientShape name found expected =>
    some s!"Gradient of {name} has shape {shape found}, expected {shape expected}"
  | embedNotCategorical columns =>
    some s!"Embed columns must be categorical columns: {bracketed columns}"
  | configuredActivations n layers => some s!"{n} activations for {layers} hidden layers"
  | unknownOption name => some s!"Unknown training option: {name}"
  | unknownOptimizer name => some s!"Unknown optimizer: {name}"
  | columnsMissing columns => some s!"No column stats for model columns {ints columns}"
  | targetMissing shown => some s!"Target column {shown} not in data"
  | noWeights => some "Master params carry no model weights"
  | noResults iteration => some s!"No worker results for iteration {iteration}"
  | roundRefused phase => some s!"Master cannot run a round in phase {phase.name}"
  | initRefused phase => some s!"Master already initialized, phase {phase.name}"
  | haltRefused phase => some s!"Master cannot halt in phase {phase.name}"
  | textTooLong bytes => some s!"String too long to serialize: {bytes} bytes"
  | format fault => some (faultMessage fault)
  | _ => none

def kindWords : ErrorKind → String
  | .invalidValue => "invalid value"
  | .shapeMismatch => "shapes do not match"
  | .wrongType => "value of a wrong type"
  | .missingKey => "missing entry"
  | .missingAttribute => "value of another kind than wanted"
  | .overflow => "number out of range"
  | .tensor => "tensor shapes do not fit"
  | .tensorIndex => "tensor index out of range"
  | .phase => "not in this phase"
  | .fileNotFound => "file not found"
  | .malformedDocument => "malformed JSON"
  | .malformedModel => "malformed model data"
  | .packing => "integer too large for the format"
  | .deflate => "invalid compressed data"

/-- The words of any error: its own or those of its class. -/
def words (e : Error) : String :=
  e.message?.getD (kindWords e.kind)

end Error

end WideDeep
