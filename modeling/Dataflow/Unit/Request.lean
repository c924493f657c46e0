import Dataflow.Error
import Dataflow.Record
import Dataflow.Schedule
import Dataflow.Storage.Layout

/-!
# Requests for compute units

A request names the outputs to compute and the outputs whose values the caller will
supply. `UnitPlan.make` decides what has to be computed for it and in which order, or
why that cannot be done.
-/

namespace Dataflow

structure UnitRequest where
  outputs : List PortRef
  graphInputs : List PortRef
deriving DecidableEq, Repr

/-- A port together with its type. -/
abbrev TypedPort := PortRef × DataType

namespace UnitRequest

def portsText (ports : List PortRef) : String :=
  String.intercalate "+"
    (ports.map fun p => Symbol.sanitize p.node ++ "." ++ Symbol.sanitize p.port)

/-- What the request adds to the symbols made for it. -/
def stem (r : UnitRequest) : String :=
  if r.graphInputs.isEmpty then portsText r.outputs
  else portsText r.outputs ++ "<" ++ portsText r.graphInputs

end UnitRequest

def nativeType (port : PortRef) (ty : DataType) : Except UnitError Ir.Ty :=
  match ty.native with
  | none => .error (.unsupportedType port ty)
  | some native => .ok native

/-- The types in which the values of a node's ports travel. -/
def Node.portTypes (n : Node) (role : PortRole) : Except UnitError (List Ir.Ty) :=
  (n.ports role).mapM fun p => nativeType (n.portRef p) p.dataType

def RecordLayout.forPorts (ports : List TypedPort) : Except UnitError RecordLayout :=
  match RecordLayout.ofTypes (ports.map Prod.snd) with
  | .ok layout => .ok layout
  | .error k =>
      let (port, ty) := ports.getD k (default, .handle)
      .error (.unsupportedType port ty)

/-- The type of an output that a request names. -/
def outputType (g : Graph) (port : PortRef) : Except UnitError DataType :=
  match g.port port .output with
  | .ok p => .ok p.dataType
  | .error _ => .error (.unknownPort port .output g.version)

/-- Follows reroutes up from `source`; `fresh` holds the reroutes not met so far. -/
def followReroutes (g : Graph) (ix : Index) (requested : PortRef) (fresh : List String)
    (source : PortRef) : Except UnitError PortRef :=
  if ix.isReroute source.node then
    if _h : source.node ∈ fresh then
      match g.node? source.node with
      | none => .error (.inconsistent source.node g.version)
      | some reroute =>
          match reroute.inputs.head? with
          | none => .error (.rerouteRequest requested)
          | some input =>
              match ix.directOrigin? (reroute.portRef input) with
              | none => .error (.rerouteRequest requested)
              | some origin => followReroutes g ix requested (fresh.erase source.node) origin
    else .error (.rerouteRequest requested)
  else .ok source
termination_by fresh.length
decreasing_by
  have := List.length_pos_of_mem _h
  rw [List.length_erase_of_mem _h]
  omega

/-- The port that computes a requested output, with the type the output itself has. -/
def resolveOutput (g : Graph) (ix : Index) (port : PortRef) : Except UnitError TypedPort := do
  let ty ← outputType g port
  let _ ← nativeType port ty
  let source ← followReroutes g ix port ix.reroutes port
  return (source, ty)

/-- The outputs whose values the caller supplies, in the order of the request. -/
structure Bindings where
  ports : List TypedPort
deriving DecidableEq, Repr

namespace Bindings

variable (b : Bindings)

def nodes : List String := (b.ports.map fun p => p.1.node).eraseDups

/-- The position at which a port is first designated. -/
def slot? (port : PortRef) : Option Nat := b.ports.findIdx? fun p => p.1 == port

def binds (node : String) : Bool := b.nodes.contains node

def designate (g : Graph) (ix : Index) (port : PortRef) : Except UnitError TypedPort := do
  let ty ← outputType g port
  if ix.isReroute port.node then throw (.rerouteRequest port)
  return (port, ty)

/-- Refuses a node of which an output is not designated. -/
def checkComplete (g : Graph) (name : String) : Except UnitError Unit :=
  match g.node? name with
  | none => .error (.inconsistent name g.version)
  | some n =>
      match n.outputs.find? fun p => (b.slot? (n.portRef p)).isNone with
      | some missing => .error (.partialGraphInput name missing.identifier)
      | none => .ok ()

def make (g : Graph) (ix : Index) (inputs : List PortRef) : Except UnitError Bindings := do
  let ports ← inputs.mapM (designate g ix)
  let b : Bindings := ⟨ports⟩
  b.nodes.forM (b.checkComplete g)
  return b

end Bindings

/-- Lists what the roots need, one root after the other. -/
def scheduleRoots (g : Graph) (ix : Index) (bound : List String) (p : Schedule.Progress) :
    List String → Except UnitError Schedule.Progress
  | [] => .ok p
  | root :: roots =>
      if ix.contains root then
        let p := Schedule.visit (Schedule.needs ix.edges bound) p [root]
        match p.listed.find? fun name => (g.node? name).isNone with
        | some missing => .error (.inconsistent missing g.version)
        | none => scheduleRoots g ix bound p roots
      else .error (.inconsistent root g.version)

def evaluationOrder (g : Graph) (ix : Index) (bound roots : List String) :
    Except UnitError (List Node) := do
  let p ← scheduleRoots g ix bound ⟨ix.nodes, []⟩ roots
  return p.listed.filterMap g.node?

structure UnitPlan where
  version : Version
  /-- The computing port behind each requested output, with the requested type. -/
  outputs : List TypedPort
  outputLayout : RecordLayout
  bindings : Bindings
  inputLayout : RecordLayout
  order : List Node
deriving DecidableEq, Repr

namespace UnitPlan

def make (g : Graph) (ix : Index) (storage : StorageLayout) (r : UnitRequest) :
    Except UnitError UnitPlan := do
  let version := g.version
  if r.outputs.isEmpty then throw .emptyRequest
  if ix.version ≠ version ∨ storage.version ≠ version then
    throw (.inconsistent g.name version)
  let outputs ← r.outputs.mapM (resolveOutput g ix)
  let outputLayout ← RecordLayout.forPorts outputs
  let bindings ← Bindings.make g ix r.graphInputs
  let inputLayout ← RecordLayout.forPorts bindings.ports
  let order ← evaluationOrder g ix bindings.nodes (outputs.map fun p => p.1.node)
  return { version, outputs, outputLayout, bindings, inputLayout, order }

variable (plan : UnitPlan)

/-- The nodes that are computed, in order. -/
def called : List Node := plan.order.filter fun n => !plan.bindings.binds n.name

end UnitPlan

end Dataflow
