import Dataflow.Graph.Basic

/-!
# Versions of graphs

The version of a graph is the digest of an encoding of its structure: its name, its
nodes in order with their kinds and ports, and its links sorted by target. Authored
values and the order in which links were made leave no trace in it.
-/

namespace Dataflow

def Port.encoding (role : PortRole) (p : Port) : Bytes :=
  role.tag :: p.dataType.tag :: Bytes.ofSizedText p.identifier

def Node.encoding (n : Node) : Bytes :=
  Bytes.ofSizedText n.name ++ n.kind.fingerprint
    ++ n.inputs.flatMap (Port.encoding .input)
    ++ n.outputs.flatMap (Port.encoding .output)

namespace Link

def le (k l : Link) : Bool :=
  if k.target = l.target then k.origin.le l.origin else k.target.le l.target

def encoding (l : Link) : Bytes :=
  Bytes.ofSizedText l.origin.node ++ Bytes.ofSizedText l.origin.port
    ++ Bytes.ofSizedText l.target.node ++ Bytes.ofSizedText l.target.port

end Link

namespace Graph

variable (g : Graph)

def encoding : Bytes :=
  Bytes.ofSizedText g.name ++ g.nodes.flatMap Node.encoding
    ++ (g.links.mergeSort Link.le).flatMap Link.encoding

def computeVersion : Version := Version.ofStream g.encoding

def version : Version := g.token.getD g.computeVersion

/-- The same graph with its version token at hand. -/
def remember : Graph := { g with token := some g.version }

end Graph

end Dataflow
