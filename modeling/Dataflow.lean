import Dataflow.Description
import Dataflow.Evaluator
import Dataflow.Json.Codec
import Dataflow.Proofs.Graph.WellFormed
import Dataflow.Proofs.Index.Origins
import Dataflow.Proofs.Ir.Execution
import Dataflow.Proofs.Kind.Emission
import Dataflow.Proofs.Kind.Meaning
import Dataflow.Proofs.Record.Access
import Dataflow.Proofs.Scalar.Images
import Dataflow.Scalar.Text
import Dataflow.Proofs.Unit.Generation
import Dataflow.Proofs.Unit.NodeFunction
import Dataflow.Proofs.Graph.Values
import Dataflow.Proofs.Unit.Plan
import Dataflow.Proofs.Unit.Records
import Dataflow.Proofs.Storage.Cells
import Dataflow.Proofs.Unit.EntryDraft
import Dataflow.Proofs.Unit.EntrySteps
import Dataflow.Proofs.Unit.EntryFunction
import Dataflow.Proofs.Backend.Definitions
import Dataflow.Proofs.Unit.Invocation
import Dataflow.Proofs.SymbolTable.Declarations
import Dataflow.Proofs.Backend.Growth
import Dataflow.Proofs.Evaluator.Changes
import Dataflow.Proofs.Evaluator.Coherence
import Dataflow.Proofs.Evaluator.SharedCells
import Dataflow.Proofs.Evaluator.HeldUnits
import Dataflow.Proofs.Unit.Generability
import Dataflow.Proofs.Backend.Independence
import Dataflow.Proofs.Graph.Structure
import Dataflow.Proofs.Version.Decoding
import Dataflow.Proofs.Version.FixedKinds
import Dataflow.Proofs.Version.HostKinds
import Dataflow.Proofs.Index.Chains
import Dataflow.Proofs.Schedule.PostOrder
import Dataflow.Proofs.Unit.Planning
import Dataflow.Proofs.Unit.Emitted
import Dataflow.Proofs.Unit.Outcome
import Dataflow.Proofs.Backend.Acceptance
import Dataflow.Proofs.Evaluator.OutputRecords
import Dataflow.Proofs.Evaluator.Compiling
import Dataflow.Proofs.Evaluator.CachedUnits
import Dataflow.Proofs.Evaluator.Journal
import Dataflow.Proofs.Evaluator.Failures
import Dataflow.Proofs.Evaluator.Consistency
import Dataflow.Proofs.Graph.Histories
import Dataflow.Proofs.Evaluator.Transparency
import Dataflow.Proofs.Evaluator.Binding
import Dataflow.Proofs.Index.DataOrigins
import Dataflow.Proofs.Unit.EvaluationOrder
import Dataflow.Proofs.Backend.Sessions
import Dataflow.Proofs.Unit.EntryCode
import Dataflow.Proofs.Backend.TypedCalls
import Dataflow.Proofs.Unit.RequestedOutputs
import Dataflow.Proofs.SymbolTable.Redeclaration
import Dataflow.Proofs.Backend.Retries
import Dataflow.Proofs.Storage.Coverage
import Dataflow.Proofs.Backend.TakenNames
import Dataflow.Proofs.Index.Views
import Dataflow.Proofs.Record.Layout
import Dataflow.Proofs.Evaluator.IndexInUse
import Dataflow.Proofs.Kind.Integers
import Dataflow.Proofs.Ir.Division
import Dataflow.Proofs.Unit.StockFunctions
import Dataflow.Proofs.Unit.TruthBytes
import Dataflow.Proofs.Evaluator.TruthValues
import Dataflow.Proofs.Json.RoundTrip
