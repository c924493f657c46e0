import Dataflow.Ir.Machine
import Dataflow.Unit.Generated

/-!
# Compiled units

A compiled unit is code that can be run, tied to the bank of cells it was compiled
against.
-/

namespace Dataflow

structure CompiledUnit where
  version : Version
  request : UnitRequest
  functions : List Ir.Function
  entry : Nat
  nodeOrder : List String
  inputLayout : RecordLayout
  outputLayout : RecordLayout
  /-- The bank of cells from which the code loads. -/
  bank : Nat
deriving DecidableEq, Repr

namespace CompiledUnit

def ofGenerated (u : GeneratedUnit) (bank : Nat) : CompiledUnit where
  version := u.version
  request := u.request
  functions := u.functions
  entry := u.entry
  nodeOrder := u.nodeOrder
  inputLayout := u.inputLayout
  outputLayout := u.outputLayout
  bank := bank

variable (u : CompiledUnit)

def entryName : String := (u.functions.getLast?.map Ir.Function.name).getD ""

/-- Writes the supplied values from field `field` on, checking their types. -/
def writeInputs (layout : RecordLayout) (record : Bytes) (field : Nat) :
    List Value → List PortRef → Except UnitError Bytes
  | value :: values, port :: ports =>
      if layout.dataType? field = some value.dataType then
        writeInputs layout (layout.write record field value) (field + 1) values ports
      else
        .error (.valueTypeMismatch port ((layout.dataType? field).getD value.dataType)
          value.dataType)
  | _, _ => .ok record

def readOutputs (record : Bytes) (field : Nat) : List PortRef → Except UnitError (List Value)
  | [] => .ok []
  | port :: ports =>
      match u.outputLayout.read? record field with
      | none => .error (.unknownPort port .output u.version)
      | some value => do return value :: (← readOutputs record (field + 1) ports)

def execute (cells : Ir.Bank) (input : Bytes) : Except UnitError Bytes :=
  match u.functions.find? fun f => f.id == u.entry with
  | none => .error (.trapped .badCall)
  | some f =>
      (f.runEntry u.functions cells input u.outputLayout.allocate).mapError .trapped

/-- Runs the unit on the contents of its cells and the supplied values, and gives one
value for each requested output. -/
def invoke (cells : Ir.Bank) (values : List Value) : Except UnitError (List Value) := do
  if values.length ≠ u.inputLayout.count then
    throw (.inputCountMismatch u.inputLayout.count values.length)
  let input ← writeInputs u.inputLayout u.inputLayout.allocate 0 values u.request.graphInputs
  let output ← u.execute cells input
  u.readOutputs output 0 u.request.outputs

end CompiledUnit

end Dataflow
