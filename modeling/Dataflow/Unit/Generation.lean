import Dataflow.Unit.Request

/-!
# Generation

Code is generated over the symbol table. What has been declared stays declared when
generation fails.
-/

namespace Dataflow

/-- A computation over the symbol table that may fail and keeps the table then. -/
abbrev Generation := ExceptT UnitError (StateM SymbolTable)

namespace Generation

def declareFunction (name : String) (linkage : Linkage) (params : List Ir.Ty) :
    Generation Nat :=
  ExceptT.mk fun t =>
    let (result, t) := t.declareFunction name linkage params
    (result.mapError .symbol, t)

def declareCell (name : String) (linkage : Linkage) : Generation Linkage :=
  ExceptT.mk fun t =>
    let (result, t) := t.declareCell name linkage
    (result.mapError .symbol, t)

def ofExcept {α : Type} (e : Except UnitError α) : Generation α := ExceptT.mk (pure e)

end Generation

end Dataflow
