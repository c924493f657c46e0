import Dataflow.Kind.Emit
import Dataflow.Unit.Generation

/-!
# Functions of nodes

The function of a node takes its inputs as parameters, carries its computation out
and stores the results where further parameters point to.
-/

namespace Dataflow

namespace Node

variable (n : Node)

/-- Stores each result where the parameter behind the inputs points to. -/
def storeResults : List Operand → List Operand → List Ir.Ty → Except EmitError (List Ir.Instr)
  | result :: results, target :: targets, ty :: types =>
      if result.2 = ty then do
        return .store result.1 target.1 0 :: (← storeResults results targets types)
      else
        .error (.custom
          ("produced a " ++ result.2.name ++ " value for a " ++ ty.name ++ " output"))
  | _, _, _ => .ok []

/-- The function of a node: its inputs come as parameters and its results go to the
addresses that follow them. -/
def function (id : Nat) (name : String) (inputs outputs : List Ir.Ty) :
    Except EmitError Ir.Function := do
  let types := inputs ++ outputs.map fun _ => Ir.Ty.address
  let params : List Operand := types.mapIdx fun k ty => (k, ty)
  let site : EmitSite :=
    ⟨n.name, params, params.take inputs.length, types.length⟩
  let fragment ← n.kind.computation.emit site
  if fragment.results.length ≠ outputs.length then
    throw (.arity outputs.length fragment.results.length)
  let stores ← storeResults fragment.results (params.drop inputs.length) outputs
  return {
    id, name
    params := types
    slots := []
    globals := []
    callees := []
    blocks := fragment.blocks ++ [⟨fragment.params, fragment.body ++ stores, .leave⟩] }

def generate (name : String) : Generation Ir.Function := do
  let inputs ← Generation.ofExcept (n.portTypes .input)
  let outputs ← Generation.ofExcept (n.portTypes .output)
  let id ← Generation.declareFunction name .internal
    (inputs ++ outputs.map fun _ => Ir.Ty.address)
  Generation.ofExcept ((n.function id name inputs outputs).mapError (.emit n.name))

end Node

/-- The symbol of each node's function, none of them taken before. -/
def nodeSymbols (label : String) (taken : List String) : List Node → List (Node × String)
  | [] => []
  | n :: ns =>
      let name := Symbol.unique (label ++ "::" ++ Symbol.sanitize n.name) taken
      (n, name) :: nodeSymbols label (name :: taken) ns

def generateNodes : List (Node × String) → Generation (List (String × Ir.Function))
  | [] => return []
  | (n, name) :: rest => do
      let f ← n.generate name
      return (n.name, f) :: (← generateNodes rest)

end Dataflow
