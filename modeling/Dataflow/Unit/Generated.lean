import Dataflow.Ir.Text
import Dataflow.Unit.EntryFunction
import Dataflow.Unit.NodeFunction

/-!
# Generated units

A planned request becomes one function per computed node and an entry function.
-/

namespace Dataflow

structure GeneratedUnit where
  version : Version
  request : UnitRequest
  label : String
  functions : List Ir.Function
  /-- The id of the entry function, which is the last one. -/
  entry : Nat
  nodeOrder : List String
  inputLayout : RecordLayout
  outputLayout : RecordLayout
deriving DecidableEq, Repr

def unitLabel (sequence : Nat) (r : UnitRequest) : String :=
  s!"nodejit{sequence}[" ++ r.stem ++ "]"

def generateUnit (g : Graph) (ix : Index) (storage : StorageLayout) (r : UnitRequest)
    (sequence : Nat) : Generation GeneratedUnit := do
  let plan ← Generation.ofExcept (UnitPlan.make g ix storage r)
  let label := unitLabel sequence r
  let entryName := label ++ "::entry"
  let nodes ← generateNodes (nodeSymbols label [entryName] plan.called)
  let entry ← EntryContext.generate ⟨ix, storage, plan, nodes⟩ entryName
  return {
    version := plan.version
    request := r
    label
    functions := nodes.map Prod.snd ++ [entry]
    entry := entry.id
    nodeOrder := plan.called.map Node.name
    inputLayout := plan.inputLayout
    outputLayout := plan.outputLayout }

/-- The text of all functions, each under its name. -/
def GeneratedUnit.text (u : GeneratedUnit) : String :=
  String.join (u.functions.map fun f => "; " ++ f.name ++ "\n" ++ f.text ++ "\n")

end Dataflow
