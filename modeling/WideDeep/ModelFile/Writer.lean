import WideDeep.Bytes.Field
import WideDeep.Model.Basic
import WideDeep.Normalization

/-!
# Writing models

A model file holds a version, reserved fields, the kind of normalization, the statistics of the
columns, and the model: its columns, tables and layers.
-/

namespace WideDeep

namespace ColumnStatsOf

variable {L N : Type}

/-- The fields of the statistics of a column, given those of a text and of a number. -/
def fieldsWith (text : L → Field) (number : N → Binary.Stored Float) (c : ColumnStatsOf L N) :
    List Field :=
  [.int c.number, (c.name.map text).getD (.text none), .bool (c.kind != .numerical),
    .bool (c.kind != .categorical), .doubles (c.boundaries.map number), .int c.labels.length] ++
  c.labels.map text ++
  [.doubles (c.countEvidence.map number), .doubles (c.weightedEvidence.map number),
    .double (number c.mean), .double (number c.stddev), .double (number c.evidenceMean),
    .double (number c.evidenceStddev), .double (number c.weightedMean),
    .double (number c.weightedStddev), .double (number c.cutoff)]

end ColumnStatsOf

def ColumnStats.fields (c : ColumnStats) : List Field :=
  c.fieldsWith (fun s => .text (some s)) Binary.Stored.plain

namespace ColumnRecord

/-- A name or a label: what counts as absent is written as an empty text. -/
def textField (d : Document) : Field :=
  match d with
  | .text s => .text (some s)
  | d => if d.isAbsent then .text none else .refused .notText

def fields (c : ColumnRecord) : List Field :=
  c.fieldsWith textField id

end ColumnRecord

namespace Model

variable {α : Type} [Zero α]

def embedFields (store : α → Binary.Stored Float32) (m : Model α) (column : Int) : List Field :=
  let t := m.parameters.tensor (.embedding column)
  [.int column, .int (t.shape.headD 0), .int (t.shape.getD 1 0), .singles (t.data.map store)]

def wideFields (store : α → Binary.Stored Float32) (m : Model α) (column : Int) : List Field :=
  let t := m.parameters.tensor (.wide column)
  [.int column, .int (t.shape.headD 0), .singles (t.data.map store)]

def layerFields (store : α → Binary.Stored Float32) (m : Model α) (position : Nat) :
    List LayerSize → List Field
  | [] => []
  | s :: rest =>
    [.int s.inputs, .int s.outputs,
      .singles ((m.parameters.tensor (.deepWeight position)).data.map store),
      .singles ((m.parameters.tensor (.deepBias position)).data.map store),
      .text (some s.activation.name)] ++
    layerFields store m (position + 1) rest

def fields (store : α → Binary.Stored Float32) (m : Model α) : List Field :=
  let l := m.layout
  [.ints l.dense, .ints l.embed, .ints l.wide, .int l.embed.length] ++
  l.embed.flatMap (embedFields store m) ++
  [.int l.wide.length] ++
  l.wide.flatMap (wideFields store m) ++
  [.single (store (m.parameters.tensor .wideBias).head).widen, .int l.layers.length] ++
  layerFields store m 0 l.layers ++
  [.single l.l2]

end Model

namespace ModelFile

def currentVersion : Int := 1

/-- The fields of a model file, given those of its parts. -/
def fields (version : Int) (norm : Field) (columns : List (List Field)) (model : List Field) :
    List Field :=
  [.int version, .single 0, .single 0, .double 0, .text none, norm, .int columns.length] ++
  columns.flatten ++ model

/-- Write a model with columns as they are given. A kind of normalization that is not known is
refused where it would be written. -/
def write {α : Type} [Zero α] (store : α → Binary.Stored Float32) (version : Int)
    (norm : Except Error NormKind) (columns : List ColumnRecord) (m : Model α) :
    Except Error Bytes :=
  let normField : Field :=
    match norm with
    | .ok k => .text (some k.name)
    | .error e => .refused e
  Field.encodeAll (fields version normField (columns.map ColumnRecord.fields) (m.fields store))

end ModelFile

/-- A model with what is needed to use it on raw records. -/
structure StoredModel where
  model : Model Float32
  columns : List ColumnStats
  norm : NormKind
  version : Int

namespace StoredModel

def fields (s : StoredModel) : List Field :=
  ModelFile.fields s.version (.text (some s.norm.name)) (s.columns.map ColumnStats.fields)
    (s.model.fields Binary.Stored.plain)

def write (s : StoredModel) : Except Error Bytes :=
  Field.encodeAll s.fields

end StoredModel

end WideDeep
