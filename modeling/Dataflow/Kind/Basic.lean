import Dataflow.Ir.Basic

/-!
# Kinds of nodes

A kind fixes the ports of a node and the computation behind them. The stock kinds
are closed; a host kind chooses its name, its ports, its fingerprint and its
computation freely, code of its own included, and may call itself a reroute.
-/

namespace Dataflow

/-- A value with its type. -/
abbrev Operand := Ir.Var × Ir.Ty

/-- Code in the making: the blocks that are complete and the one still open. -/
structure Fragment where
  blocks : List Ir.Block
  params : List Operand
  body : List Ir.Instr
  results : List Operand
deriving DecidableEq, Repr

inductive MathOp
  | add
  | sub
  | mul
  | div
  | min
  | max
deriving DecidableEq, Repr

inductive CompareOp
  | lt
  | le
  | gt
  | ge
  | eq
  | ne
deriving DecidableEq, Repr

/-- Why a computation cannot be emitted. -/
inductive EmitError
  | arity (expected got : Nat)
  | unsupportedType (ty : DataType)
  | custom (text : String)
deriving DecidableEq, Repr

/-- What a node does with its input values. -/
inductive Computation
  /-- Hands its only input on. -/
  | forward
  | math (op : MathOp) (ty : DataType)
  | constant (value : Value)
  | compare (op : CompareOp) (ty : DataType)
  | select (ty : DataType)
  | clamp (ty : DataType)
  /-- Has no computation: its values come from the caller. -/
  | supplied
  /-- Hands on the inputs at these positions, skipping positions past the last. -/
  | pick (positions : List Nat)
  /-- Has code of its own, as the emitter of a host kind leaves it at the node. -/
  | code (fragment : Fragment)
  | fail (error : EmitError)
deriving DecidableEq, Repr

structure HostKind where
  name : String
  inputs : List PortSpec
  outputs : List PortSpec
  isReroute : Bool
  /-- Replaces the fingerprint, which is the name otherwise. -/
  fingerprint : Option Bytes
  computation : Computation
deriving DecidableEq, Repr

inductive Kind
  | reroute (ty : DataType)
  | math (op : MathOp) (ty : DataType)
  | constant (value : Value)
  | compare (op : CompareOp) (ty : DataType)
  | select (ty : DataType)
  | clamp (ty : DataType)
  | graphInput (outputs : List PortSpec)
  | host (kind : HostKind)
deriving DecidableEq, Repr

namespace MathOp

def tag : MathOp → UInt8
  | add => 0
  | sub => 1
  | mul => 2
  | div => 3
  | min => 4
  | max => 5

end MathOp

namespace CompareOp

def tag : CompareOp → UInt8
  | lt => 0
  | le => 1
  | gt => 2
  | ge => 3
  | eq => 4
  | ne => 5

end CompareOp

namespace EmitError

def message : EmitError → String
  | arity expected got => s!"expected {expected} input values, got {got}"
  | unsupportedType ty => "type " ++ ty.name ++ " is not supported by this node kind"
  | custom text => text

end EmitError

namespace Kind

def name : Kind → String
  | reroute _ => "reroute"
  | math _ _ => "math"
  | constant _ => "constant"
  | compare _ _ => "compare"
  | select _ => "select"
  | clamp _ => "clamp"
  | graphInput _ => "graph_input"
  | host k => k.name

def inputs : Kind → List PortSpec
  | reroute ty => [⟨"input", ty⟩]
  | math _ ty => [⟨"a", ty⟩, ⟨"b", ty⟩]
  | constant _ => []
  | compare _ ty => [⟨"a", ty⟩, ⟨"b", ty⟩]
  | select ty => [⟨"condition", .bool⟩, ⟨"if_true", ty⟩, ⟨"if_false", ty⟩]
  | clamp ty => [⟨"value", ty⟩, ⟨"min", ty⟩, ⟨"max", ty⟩]
  | graphInput _ => []
  | host k => k.inputs

def outputs : Kind → List PortSpec
  | reroute ty => [⟨"output", ty⟩]
  | math _ ty => [⟨"result", ty⟩]
  | constant v => [⟨"value", v.dataType⟩]
  | compare _ _ => [⟨"result", .bool⟩]
  | select ty => [⟨"result", ty⟩]
  | clamp ty => [⟨"result", ty⟩]
  | graphInput outputs => outputs
  | host k => k.outputs

/-- A reroute only passes a link on; the data comes from further up. -/
def isReroute : Kind → Bool
  | reroute _ => true
  | host k => k.isReroute
  | _ => false

def computation : Kind → Computation
  | reroute _ => .forward
  | math op ty => .math op ty
  | constant v => .constant v
  | compare op ty => .compare op ty
  | select ty => .select ty
  | clamp ty => .clamp ty
  | graphInput _ => .supplied
  | host k => k.computation

def outputFingerprint (spec : PortSpec) : Bytes :=
  spec.dataType.tag :: (Bytes.ofText spec.identifier ++ [0])

/-- The bytes that stand for the kind in version encodings. -/
def fingerprint (kind : Kind) : Bytes :=
  let label := Bytes.ofText kind.name
  match kind with
  | reroute ty => label ++ [ty.tag]
  | math op ty => label ++ [op.tag, ty.tag]
  | constant v => label ++ v.dataType.tag :: v.toBytes
  | compare op ty => label ++ [op.tag, ty.tag]
  | select ty => label ++ [ty.tag]
  | clamp ty => label ++ [ty.tag]
  | graphInput outputs => label ++ outputs.flatMap outputFingerprint
  | host k => k.fingerprint.getD label

end Kind

end Dataflow
