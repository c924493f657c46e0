import Dataflow.Graph.Basic
import Dataflow.Ir.Word
import Dataflow.SymbolTable

/-!
# Errors of compiling and running units
-/

namespace Dataflow

inductive UnitError
  /-- A unit was requested for no outputs. -/
  | emptyRequest
  /-- A requested or designated port does not exist. -/
  | unknownPort (port : PortRef) (role : PortRole) (version : Version)
  /-- A port that has to be compiled has no native type. -/
  | unsupportedType (port : PortRef) (dataType : DataType)
  /-- Some but not all outputs of a node are designated as graph inputs. -/
  | partialGraphInput (node port : String)
  /-- A requested reroute leads nowhere, or a designated port is one of a reroute. -/
  | rerouteRequest (port : PortRef)
  | valueTypeMismatch (port : PortRef) (expected found : DataType)
  | inputCountMismatch (expected got : Nat)
  /-- Computing nodes depend on each other in a circle. -/
  | dataCycle (node : String) (version : Version)
  /-- Index, cells and graph do not describe the same structure. -/
  | inconsistent (node : String) (version : Version)
  | emit (node : String) (error : EmitError)
  /-- A generated function does not pass the type check. -/
  | verification (function : String)
  | symbol (error : SymbolError)
  /-- Cells were accessed before they were compiled. -/
  | globalsNotCompiled (version : Version)
  /-- The port is linked, belongs to a reroute or is no input. -/
  | unknownStorageCell (port : PortRef)
  /-- A unit of a superseded version was run. -/
  | staleUnit (unit current : Version)
  /-- Code failed the type check and was run all the same. -/
  | trapped (trap : Ir.Trap)
deriving DecidableEq, Repr

namespace UnitError

def message : UnitError → String
  | emptyRequest => "request names no outputs"
  | unknownPort port role version =>
      "unknown " ++ role.name ++ " port " ++ port.text ++ " in graph version " ++ version.short
  | unsupportedType port ty =>
      "port " ++ port.text ++ " has type " ++ ty.name ++ ", which cannot be compiled"
  | partialGraphInput node port =>
      "node '" ++ node ++ "' is bound as a graph input but its output '" ++ port
        ++ "' is not designated"
  | rerouteRequest port =>
      "reroute port " ++ port.text
        ++ " cannot be compiled: it does not resolve to a computing node"
  | valueTypeMismatch port expected found =>
      "value for " ++ port.text ++ " has type " ++ found.name ++ ", expected " ++ expected.name
  | inputCountMismatch expected got => s!"expected {expected} graph-input values, got {got}"
  | dataCycle node version =>
      "data dependency cycle through node '" ++ node ++ "' in graph version " ++ version.short
  | inconsistent node version =>
      "index and snapshot diverged at '" ++ node ++ "' (graph version " ++ version.short
        ++ "); mark the runtime stale"
  | emit node error => "node '" ++ node ++ "' failed to emit code: " ++ error.message
  | verification function => "verification of '" ++ function ++ "' failed"
  | symbol error => "module error: " ++ error.message
  | globalsNotCompiled version =>
      "globals unit is not compiled for graph version " ++ version.short
  | unknownStorageCell port => "no storage cell for " ++ port.text
  | staleUnit unit current =>
      "unit was compiled for graph version " ++ unit.short ++ ", current version is "
        ++ current.short
  | trapped _ => "code trapped"

end UnitError

end Dataflow
