import WideDeep.Aggregation
import WideDeep.Artifacts
import WideDeep.Assembler
import WideDeep.Binary.Real
import WideDeep.Binary.Rounding
import WideDeep.Binary.Stored
import WideDeep.Binning
import WideDeep.Bytes.Entry
import WideDeep.Bytes.Field
import WideDeep.Bytes.Reader
import WideDeep.Category
import WideDeep.Column.Record
import WideDeep.Column.Stats
import WideDeep.CommandLine
import WideDeep.Config.Model
import WideDeep.Config.Training
import WideDeep.Dataset
import WideDeep.Decimal.Places
import WideDeep.Decimal.Reading
import WideDeep.Decimal.Shortest
import WideDeep.Document
import WideDeep.Document.Reader
import WideDeep.Document.Writer
import WideDeep.Error
import WideDeep.Evaluation
import WideDeep.Frame
import WideDeep.Frame.Reader
import WideDeep.Gzip.Bits
import WideDeep.Gzip.Huffman
import WideDeep.Gzip.Inflate
import WideDeep.Gzip.Member
import WideDeep.Initializer
import WideDeep.Labelling
import WideDeep.Main
import WideDeep.Master
import WideDeep.Model.Activation
import WideDeep.Model.Basic
import WideDeep.Model.Copy
import WideDeep.Model.Gradient
import WideDeep.Model.Layout
import WideDeep.Model.Parameter
import WideDeep.Model.Scoring
import WideDeep.ModelFile.Reader
import WideDeep.ModelFile.Writer
import WideDeep.Normalization
import WideDeep.Notice
import WideDeep.Number
import WideDeep.Optimizer
import WideDeep.Payload
import WideDeep.Predictor
import WideDeep.Proofs.AddedTables
import WideDeep.Proofs.Arrangements
import WideDeep.Proofs.AssembledFrames
import WideDeep.Proofs.AtomicRounds
import WideDeep.Proofs.BatchInputs
import WideDeep.Proofs.BatchScores
import WideDeep.Proofs.BatchedLogits
import WideDeep.Proofs.CarriedDerivatives
import WideDeep.Proofs.Categories
import WideDeep.Proofs.CategoryRows
import WideDeep.Proofs.CheckpointFiles
import WideDeep.Proofs.ClippedScores
import WideDeep.Proofs.ColumnCodec
import WideDeep.Proofs.ConfiguredColumns
import WideDeep.Proofs.DatasetParts
import WideDeep.Proofs.DeclaredSizes
import WideDeep.Proofs.EntryStreams
import WideDeep.Proofs.EquivalentRecords
import WideDeep.Proofs.EvenParts
import WideDeep.Proofs.EvidenceBins
import WideDeep.Proofs.ExactRounding
import WideDeep.Proofs.ExactSums
import WideDeep.Proofs.Fields
import WideDeep.Proofs.FloatBits
import WideDeep.Proofs.FrameColumns
import WideDeep.Proofs.FrameRows
import WideDeep.Proofs.InitialDraws
import WideDeep.Proofs.InitialWeights
import WideDeep.Proofs.IntegerCodes
import WideDeep.Proofs.KeyedLists
import WideDeep.Proofs.LabelPieces
import WideDeep.Proofs.LabelledRows
import WideDeep.Proofs.LayoutRebuild
import WideDeep.Proofs.LayoutTables
import WideDeep.Proofs.LeastErrors
import WideDeep.Proofs.LoadedModels
import WideDeep.Proofs.LossSlopes
import WideDeep.Proofs.MasterPhases
import WideDeep.Proofs.MasterSteps
import WideDeep.Proofs.ModelCodec
import WideDeep.Proofs.ModelFileRoundTrip
import WideDeep.Proofs.ModelShape
import WideDeep.Proofs.MonotoneRounding
import WideDeep.Proofs.NormalizedValues
import WideDeep.Proofs.NumberLine
import WideDeep.Proofs.NumberTexts
import WideDeep.Proofs.NumericBins
import WideDeep.Proofs.OptimizerSteps
import WideDeep.Proofs.ParameterSets
import WideDeep.Proofs.PartitionedRounds
import WideDeep.Proofs.PayloadSums
import WideDeep.Proofs.PlannedLayouts
import WideDeep.Proofs.ReadValues
import WideDeep.Proofs.ReaderFaults
import WideDeep.Proofs.Reading
import WideDeep.Proofs.RecordWeights
import WideDeep.Proofs.Recovery
import WideDeep.Proofs.ResavedModels
import WideDeep.Proofs.RestartedRuns
import WideDeep.Proofs.Results
import WideDeep.Proofs.ResumedTraining
import WideDeep.Proofs.ReturningRounds
import WideDeep.Proofs.RewrittenColumns
import WideDeep.Proofs.RoundedOperations
import WideDeep.Proofs.RoundingErrors
import WideDeep.Proofs.SafeBatches
import WideDeep.Proofs.SafeTraining
import WideDeep.Proofs.SelectedColumns
import WideDeep.Proofs.SparseInputs
import WideDeep.Proofs.StoredBits
import WideDeep.Proofs.SummedGradients
import WideDeep.Proofs.TableGradients
import WideDeep.Proofs.TagForms
import WideDeep.Proofs.TakenBytes
import WideDeep.Proofs.TraceShapes
import WideDeep.Proofs.TrainingEpochs
import WideDeep.Proofs.TrainingRuns
import WideDeep.Proofs.TruncatedFiles
import WideDeep.Proofs.WeightCopies
import WideDeep.Proofs.WritableFields
import WideDeep.Raw
import WideDeep.Scalar
import WideDeep.Session
import WideDeep.Tape
import WideDeep.Tensor
import WideDeep.Text.Blank
import WideDeep.Text.Case
import WideDeep.Text.Casing
import WideDeep.Text.Digit
import WideDeep.Text.Order
import WideDeep.Text.Printable
import WideDeep.Text.Quoted
import WideDeep.Training
import WideDeep.Worker
