import Dataflow.Scalar.Basic

/-!
# Ports

A port is addressed by the name of its node and its identifier there. Addresses
are ordered by node and then by identifier, each by code point.
-/

namespace Dataflow

structure PortRef where
  node : String
  port : String
deriving DecidableEq, Repr, Inhabited

inductive PortRole
  | input
  | output
deriving DecidableEq, Repr

/-- The shape of a port as a kind declares it. -/
structure PortSpec where
  identifier : String
  dataType : DataType
deriving DecidableEq, Repr

/-- A port of a node. Only inputs with a native type hold an authored value. -/
structure Port where
  identifier : String
  dataType : DataType
  value : Option Value
deriving DecidableEq, Repr

namespace PortRef

def text (p : PortRef) : String := p.node ++ ":" ++ p.port

def le (p q : PortRef) : Bool :=
  decide (p.node < q.node) || (p.node == q.node && decide (p.port ≤ q.port))

end PortRef

namespace PortRole

def name : PortRole → String
  | input => "Input"
  | output => "Output"

/-- Identifies the role in version encodings. -/
def tag : PortRole → UInt8
  | input => 0
  | output => 1

end PortRole

namespace Port

/-- A new port: inputs start at the zero of their type, outputs hold nothing. -/
def ofSpec (role : PortRole) (spec : PortSpec) : Port where
  identifier := spec.identifier
  dataType := spec.dataType
  value :=
    match role with
    | .input => spec.dataType.zero
    | .output => none

end Port

end Dataflow
