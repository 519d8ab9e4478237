import WideDeep.Bytes.Reader
import WideDeep.Gzip.Member
import WideDeep.ModelFile.Writer
import WideDeep.Notice

/-!
# Reading models

The reader takes a plain or a compressed model file. It builds the layout from the tables and layers
it finds, checks that they fit together, and fills in the weights.
-/

namespace WideDeep

namespace ColumnStats

/-- The kind of a column by the two flags of its record. -/
def kindOfFlags (categorical numerical : Bool) : ColumnKind :=
  if categorical then if numerical then .hybrid else .categorical else .numerical

def read : Reader ColumnStats := do
  let number ← Reader.int
  let name ← Reader.text
  let categorical ← Reader.bool
  let numerical ← Reader.bool
  let boundaries ← Reader.doubles
  let labels ← Reader.replicate Reader.text (← Reader.length)
  let countEvidence ← Reader.doubles
  let weightedEvidence ← Reader.doubles
  let mean ← Reader.double
  let stddev ← Reader.double
  let evidenceMean ← Reader.double
  let evidenceStddev ← Reader.double
  let weightedMean ← Reader.double
  let weightedStddev ← Reader.double
  let cutoff ← Reader.double
  match ColumnStatsOf.make name number (some name) (kindOfFlags categorical numerical) mean stddev
    cutoff boundaries labels countEvidence weightedEvidence evidenceMean evidenceStddev
    weightedMean weightedStddev with
  | .ok c => pure c
  | .error e => Reader.fault (.invalidColumn (e.message?.getD ""))

end ColumnStats

structure TableRecord where
  size : TableSize
  data : List Float32

structure LayerRecord where
  inputs : Nat
  outputs : Nat
  weight : List Float32
  bias : List Float32
  activation : String

namespace TableRecord

def readEmbed : Reader TableRecord := do
  let column ← Reader.int
  let rows ← Reader.length
  let width ← Reader.length
  return ⟨⟨column, rows, width⟩, ← Reader.singles (rows * width : Nat)⟩

def readWide : Reader TableRecord := do
  let column ← Reader.int
  let rows ← Reader.length
  return ⟨⟨column, rows, 1⟩, ← Reader.singles rows⟩

def sizes (tables : List TableRecord) : List TableSize :=
  (tables.map (·.size)).foldl TableSize.put []

/-- The weights of tables under their names; of one column the last table counts. -/
def weights (name : Int → ParamName) (tables : List TableRecord) : Parameters Float32 :=
  tables.reverse.map fun t => (name t.size.column, Tensor.ofList [t.size.rows, t.size.width] t.data)

end TableRecord

namespace LayerRecord

/-- Read a layer that follows one with `previous` outputs, if there is a layer before it. -/
def read (position : Nat) (previous : Option Nat) : Reader LayerRecord := do
  let inputs ← Reader.length
  let outputs ← Reader.length
  match previous with
  | some n => if n != inputs then Reader.fault (.layerInputs position inputs n)
  | none => pure ()
  let weight ← Reader.singles (outputs * inputs : Nat)
  let bias ← Reader.singles outputs
  let activation ← Reader.text
  pure ⟨inputs, outputs, weight, bias, Text.lower activation⟩

def readAll (position : Nat) (previous : Option Nat) : Nat → Reader (List LayerRecord)
  | 0 => pure []
  | n + 1 => do
    let first ← read position previous
    return first :: (← readAll (position + 1) (some first.outputs) n)

def weights (position : Nat) : List LayerRecord → Parameters Float32
  | [] => []
  | r :: rest =>
    (.deepWeight position, Tensor.ofList [r.outputs, r.inputs] r.weight) ::
      (.deepBias position, Tensor.ofList [r.outputs] r.bias) :: weights (position + 1) rest

end LayerRecord

namespace Model

def sortedInts (ns : List Int) : List Int :=
  ns.mergeSort fun a b => decide (a ≤ b)

/-- The last of equal columns with the number of categories that its table has rows for. -/
def categoriesOf (tables : List TableSize) : List (Int × Int) :=
  tables.map fun t => (t.column, (t.rows : Int) - 1)

/-- Check that the layers lead from the inputs of the columns to one linear output, through known
activations. -/
def checkLayers (dense : List Int) (embedTables : List TableSize) (layers : List LayerRecord) :
    Except FormatFault Unit := do
  let expected := dense.length + (embedTables.map (·.width)).foldl (· + ·) 0
  let inputs := (layers.head?.map (·.inputs)).getD 0
  if inputs != expected then throw (.firstLayer inputs expected dense.length)
  let outputs := (layers.getLast?.map (·.outputs)).getD 0
  let activation := (layers.getLast?.map (·.activation)).getD ""
  if outputs != 1 || activation != "linear" then throw (.lastLayer outputs activation)
  let unknown := (layers.map (·.activation)).filter fun a => (Activation.ofName? a).isNone
  if !unknown.isEmpty then throw (.unknownActivations unknown)

/-- Check that a column that is both embedded and wide has tables of one number of rows. -/
def checkSizes (wide : List Int) (embedTables wideTables : List TableSize) :
    Except FormatFault Unit :=
  wide.forM fun column =>
    match embedTables.find? (·.column == column), wideTables.find? (·.column == column) with
    | some e, some w => if e.rows != w.rows then .error (.tableSizes column) else .ok ()
    | _, _ => .ok ()

def checked (c : Except FormatFault Unit) : Reader Unit :=
  match c with
  | .ok _ => pure ()
  | .error f => Reader.fault f

def read : Reader (Model Float32) := do
  let dense ← Reader.ints
  let embed ← Reader.ints
  let wide ← Reader.ints
  let embedRecords ← Reader.replicate TableRecord.readEmbed (← Reader.length)
  let embedTables := TableRecord.sizes embedRecords
  let embedColumns := sortedInts (embedTables.map (·.column))
  if embedColumns != sortedInts embed then Reader.fault (.embedTables embedColumns embed)
  let wideRecords ← Reader.replicate TableRecord.readWide (← Reader.length)
  let wideTables := TableRecord.sizes wideRecords
  let wideColumns := sortedInts (wideTables.map (·.column))
  if wideColumns != sortedInts wide then Reader.fault (.wideTables wideColumns wide)
  let bias ← Reader.single
  let count ← Reader.length
  if count == 0 then Reader.fault .noLayers
  let layers ← LayerRecord.readAll 0 none count
  let l2 ← Reader.single
  checked (checkLayers dense embedTables layers)
  checked (checkSizes wide embedTables wideTables)
  let hidden := layers.dropLast
  let widthOf (column : Int) : Int :=
    ((embedTables.find? (·.column == column)).map (·.width)).getD 0
  let layout ← liftExcept <| Layout.make
    { categories := categoriesOf wideTables ++ categoriesOf embedTables
      dense := dense.map .int
      embed := embed.map .int
      embedWidths := embed.map fun c => .int (widthOf c)
      wide := wide.map .int
      hidden := hidden.map fun r => .int r.outputs
      activations := hidden.map fun r => .text r.activation
      l2 := .real (Binary.widen l2) }
  liftExcept <| (Model.blank layout).load
    ((.wideBias, Tensor.ofList [1] [bias]) ::
      (distinct (TableRecord.weights .embedding embedRecords ++
        TableRecord.weights .wide wideRecords)) ++ LayerRecord.weights 0 layers)
where
  /-- A result that does not read. -/
  liftExcept {β : Type} (r : Except Error β) : Reader β :=
    match r with
    | .ok x => pure x
    | .error e => throw e
  /-- The first tensor of each name. -/
  distinct (ps : Parameters Float32) : Parameters Float32 :=
    ps.foldr (fun p rest => p :: rest.filter fun q => q.1 != p.1) []

end Model

namespace StoredModel

def readBody (version : Int) : Reader StoredModel := do
  let _ ← Reader.single
  let _ ← Reader.single
  let _ ← Reader.double
  let _ ← Reader.text
  let name ← Reader.text
  match NormKind.ofName? name with
  | none => Reader.fault (.unknownNorm name)
  | some norm =>
    let columns ← Reader.replicate ColumnStats.read (← Reader.length)
    let model ← Model.read
    pure ⟨model, ColumnStatsOf.byNumber columns, norm, version⟩

/-- A value that does not fit makes the data malformed. -/
def asFormat (e : Error) : Error :=
  if e.isValue then .format (.rejected (e.message?.getD "")) else e

/-- Read an expanded file. A version that differs is refused, or only noticed. -/
def readPlain (strict : Bool) (bytes : Bytes) : List Notice × Except Error StoredModel :=
  match Reader.runOn Reader.int bytes with
  | (.error e, _) => ([], .error e)
  | (.ok version, rest) =>
    let body := (Reader.runOn (readBody version) rest).1
    if version == ModelFile.currentVersion then ([], body)
    else if strict then ([], .error (.format (.unsupportedVersion version)))
    else ([.versionDiffers version], body)

def load (strict : Bool) (bytes : Bytes) : List Notice × Except Error StoredModel :=
  let plain := if bytes.take 2 == Gzip.magic then Gzip.expand bytes else .ok bytes
  match plain with
  | .error e => ([], .error e)
  | .ok b =>
    let (notices, r) := readPlain strict b
    (notices, r.mapError asFormat)

end StoredModel

end WideDeep
