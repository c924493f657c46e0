import Dataflow.Graph.Version

/-!
# Dependency index

Where the data of each input really comes from. Links are followed through chains of
reroutes, each reroute leading on from its first input; a chain that dangles or runs
in a circle leaves the input without an origin. The index also holds the dependencies
between nodes that follow from the resolved origins.
-/

namespace Dataflow

structure Index where
  version : Version
  directOrigins : List Link
  dataOrigins : List Link
  reroutes : List String
  nodes : List String
  /-- Consumer and dependency, each pair once, in an order that carries no meaning. -/
  edges : List (String × String)
deriving DecidableEq, Repr

def findOrigin? (links : List Link) (target : PortRef) : Option PortRef :=
  (links.find? fun l => l.target == target).map Link.origin

namespace Graph

variable (g : Graph)

def rerouteNames : List String := (g.nodes.filter Node.isReroute).map Node.name

/-- The port from which a reroute takes its data. -/
def rerouteOrigin? (name : String) : Option PortRef := do
  let node ← g.node? name
  let port ← node.inputs.head?
  g.linkOrigin? (node.portRef port)

/-- Follows reroutes up from `origin`; `fresh` holds the reroutes not met so far. -/
def resolveFrom? (fresh : List String) (origin : PortRef) : Option PortRef :=
  if g.rerouteNames.contains origin.node then
    if _h : origin.node ∈ fresh then
      (g.rerouteOrigin? origin.node).bind (resolveFrom? (fresh.erase origin.node))
    else none
  else some origin
termination_by fresh.length
decreasing_by
  have := List.length_pos_of_mem _h
  rw [List.length_erase_of_mem _h]
  omega

/-- The port whose data reaches an input of a computing node. -/
def resolve? (target : PortRef) : Option PortRef :=
  if g.rerouteNames.contains target.node then none
  else (g.linkOrigin? target).bind (g.resolveFrom? g.rerouteNames)

end Graph

namespace Index

def build (g : Graph) : Index :=
  let dataOrigins := g.links.filterMap fun l =>
    (g.resolve? l.target).map fun origin => (⟨l.target, origin⟩ : Link)
  { version := g.version
    directOrigins := g.links
    dataOrigins
    reroutes := g.rerouteNames
    nodes := g.nodes.map Node.name
    edges := (dataOrigins.map fun l => (l.target.node, l.origin.node)).eraseDups }

variable (ix : Index)

/-- The origin of the link at an input, reroute or not. -/
def directOrigin? (input : PortRef) : Option PortRef := findOrigin? ix.directOrigins input

def dataOrigin? (input : PortRef) : Option PortRef := findOrigin? ix.dataOrigins input

/-- The inputs that an output feeds, in the order of the links. -/
def dataTargets (output : PortRef) : List PortRef :=
  (ix.dataOrigins.filter fun l => l.origin == output).map Link.target

def isReroute (node : String) : Bool := ix.reroutes.contains node

def contains (node : String) : Bool := ix.nodes.contains node

def position? (node : String) : Option Nat := ix.nodes.idxOf? node

def unlinkedInputs (n : Node) : List Port :=
  n.inputs.filter fun p => (ix.dataOrigin? (n.portRef p)).isNone

def linkedInputs (n : Node) : List Port :=
  n.inputs.filter fun p => (ix.dataOrigin? (n.portRef p)).isSome

def allUnlinkedInputs (g : Graph) : List (Node × Port) :=
  (g.nodes.filter fun n => !n.isReroute).flatMap fun n =>
    (ix.unlinkedInputs n).map fun p => (n, p)

/-- The nodes that a node reads from. -/
def successors (node : String) : List String :=
  (ix.edges.filter fun e => e.1 == node).map Prod.snd

/-- The nodes that a node reads from, in order of name. -/
def dependencies (node : String) : List String :=
  (ix.successors node).mergeSort fun a b => decide (a ≤ b)

end Index

end Dataflow
