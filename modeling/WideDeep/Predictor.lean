import WideDeep.Assembler
import WideDeep.ModelFile.Reader

/-!
# Scoring raw records

A predictor scores raw records with a stored model, one by one or as a batch.
-/

namespace WideDeep

structure Predictor where
  model : Model Float32
  assembler : Assembler
  version : Int

namespace Predictor

def ofStored (s : StoredModel) (simple : Bool) : Except Error Predictor := do
  let assembler ← Assembler.forLayout s.model.layout s.columns s.norm simple
  pure ⟨s.model, assembler, s.version⟩

def load (strict simple : Bool) (bytes : Bytes) : List Notice × Except Error Predictor :=
  let (notices, r) := StoredModel.load strict bytes
  (notices, r.bind fun s => ofStored s simple)

def embedInputs (p : Predictor) (r : Inputs Float32) : List SparseInput :=
  Assembler.sparse p.assembler.embed r.embed

def wideInputs (p : Predictor) (r : Inputs Float32) : List SparseInput :=
  Assembler.sparse p.assembler.wide r.wide

def score (p : Predictor) (r : RawRecord) : Except Error (List Float32) := do
  let inputs ← p.assembler.recordInputs r
  p.model.compute inputs.dense (p.embedInputs inputs) (p.wideInputs inputs)

/-- The scores of raw records in one pass; none if there are no records. -/
def scoreAll (storage : Storage) (p : Predictor) (records : List RawRecord) :
    Except Error (List Float32) := do
  let frame := Frame.ofRecords storage none records
  if frame.size == 0 then return []
  let rows ← p.assembler.frameInputs frame
  p.model.scores (p.assembler.batch rows)

end Predictor

end WideDeep
