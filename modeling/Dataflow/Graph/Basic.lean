import Dataflow.Kind.Basic
import Dataflow.Version

/-!
# Graphs

A graph is a list of named nodes and a list of links. A link leads from an output to
an input of the same type on another node, and an input has at most one link. Nodes
and links keep the order in which they were made; replacing a link keeps its place.
-/

namespace Dataflow

structure Node where
  name : String
  kind : Kind
  inputs : List Port
  outputs : List Port
deriving DecidableEq, Repr

structure Link where
  target : PortRef
  origin : PortRef
deriving DecidableEq, Repr

structure Graph where
  name : String
  nodes : List Node
  links : List Link
  /-- The version token, once it has been computed for the present structure. -/
  token : Option Version
deriving DecidableEq, Repr

/-- Why an edit of a graph is refused. -/
inductive GraphError
  | duplicateNode (name : String)
  | duplicatePort (node port : String) (role : PortRole)
  | nodeNotFound (name : String)
  | portNotFound (port : PortRef) (role : PortRole)
  | typeMismatch (port : PortRef) (expected found : DataType)
  | selfLink (origin target : PortRef)
deriving DecidableEq, Repr

namespace GraphError

def message : GraphError → String
  | duplicateNode name => "duplicate node name: '" ++ name ++ "'"
  | duplicatePort node port role =>
      "node '" ++ node ++ "' declares " ++ role.name ++ " port '" ++ port ++ "' twice"
  | nodeNotFound name => "node not found: '" ++ name ++ "'"
  | portNotFound port role => role.name ++ " port not found: " ++ port.text
  | typeMismatch port expected found =>
      "type mismatch at " ++ port.text ++ ": expected " ++ expected.name
        ++ ", found " ++ found.name
  | selfLink origin target =>
      "invalid link: " ++ origin.text ++ " -> " ++ target.text ++ " links a node to itself"

end GraphError

/-- The first identifier that stands twice. -/
def repeatedIdentifier? : List String → List PortSpec → Option String
  | _, [] => none
  | seen, spec :: specs =>
      if seen.contains spec.identifier then some spec.identifier
      else repeatedIdentifier? (spec.identifier :: seen) specs

namespace Node

def ofKind (name : String) (kind : Kind) : Except GraphError Node :=
  match repeatedIdentifier? [] kind.inputs with
  | some port => .error (.duplicatePort name port .input)
  | none =>
      match repeatedIdentifier? [] kind.outputs with
      | some port => .error (.duplicatePort name port .output)
      | none =>
          .ok {
            name, kind
            inputs := kind.inputs.map (Port.ofSpec .input)
            outputs := kind.outputs.map (Port.ofSpec .output) }

variable (n : Node)

def isReroute : Bool := n.kind.isReroute

def portRef (port : Port) : PortRef := ⟨n.name, port.identifier⟩

def ports : PortRole → List Port
  | .input => n.inputs
  | .output => n.outputs

def port? (role : PortRole) (identifier : String) : Option Port :=
  (n.ports role).find? fun p => p.identifier == identifier

def outputIndex? (identifier : String) : Option Nat :=
  n.outputs.findIdx? fun p => p.identifier == identifier

def setInput (identifier : String) (value : Value) : Node :=
  { n with
    inputs := n.inputs.map fun p =>
      if p.identifier = identifier then { p with value := some value } else p }

end Node

namespace Graph

def empty (name : String) : Graph := ⟨name, [], [], none⟩

variable (g : Graph)

def node? (name : String) : Option Node := g.nodes.find? fun n => n.name == name

def linkOrigin? (target : PortRef) : Option PortRef :=
  (g.links.find? fun l => l.target == target).map Link.origin

def port (ref : PortRef) (role : PortRole) : Except GraphError Port :=
  match g.node? ref.node with
  | none => .error (.nodeNotFound ref.node)
  | some n =>
      match n.port? role ref.port with
      | none => .error (.portNotFound ref role)
      | some p => .ok p

/-- Adds a node at the end. -/
def addNode (name : String) (kind : Kind) : Except GraphError (Node × Graph) :=
  if (g.node? name).isSome then .error (.duplicateNode name)
  else do
    let node ← Node.ofKind name kind
    return (node, { g with nodes := g.nodes ++ [node], token := none })

/-- Removes a node and every link at it. -/
def removeNode (name : String) : Except GraphError (Node × Graph) :=
  match g.node? name with
  | none => .error (.nodeNotFound name)
  | some node =>
      .ok (node, { g with
        nodes := g.nodes.filter fun n => n.name != name
        links := g.links.filter fun l => l.target.node != name && l.origin.node != name
        token := none })

/-- Puts `link` where its target is linked already, or at the end. -/
def insertLink (link : Link) : List Link → List Link
  | [] => [link]
  | l :: ls => if l.target = link.target then link :: ls else l :: insertLink link ls

/-- Links an output to an input and returns the origin that it replaces. -/
def link (origin target : PortRef) : Except GraphError (Option PortRef × Graph) := do
  let source ← g.port origin .output
  let sink ← g.port target .input
  if source.dataType ≠ sink.dataType then
    throw (.typeMismatch target sink.dataType source.dataType)
  if origin.node = target.node then
    throw (.selfLink origin target)
  return (g.linkOrigin? target,
    { g with links := insertLink ⟨target, origin⟩ g.links, token := none })

/-- Removes the link to an input, if there is one, and returns its origin. -/
def unlink (target : PortRef) : Option PortRef × Graph :=
  match g.linkOrigin? target with
  | none => (none, g)
  | some origin =>
      (some origin,
        { g with links := g.links.filter fun l => l.target != target, token := none })

/-- Sets the authored value of an input, which leaves the structure as it is. -/
def setInputValue (ref : PortRef) (value : Value) : Except GraphError Graph := do
  let port ← g.port ref .input
  if value.dataType ≠ port.dataType then
    throw (.typeMismatch ref port.dataType value.dataType)
  return { g with
    nodes := g.nodes.map fun n => if n.name = ref.node then n.setInput ref.port value else n }

end Graph

end Dataflow
