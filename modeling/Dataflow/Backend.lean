import Dataflow.Ir.Memory
import Dataflow.Ir.Typing
import Dataflow.Options
import Dataflow.Unit.Generated

/-!
# Backend

A backend holds the symbols of one set of cells and of every unit generated against
it. Units are numbered by the generations that succeeded.
-/

namespace Dataflow

structure Backend where
  table : SymbolTable
  verify : Bool
  /-- The number of the last unit generated. -/
  sequence : Nat
deriving DecidableEq, Repr

namespace Backend

def new (options : Options) : Backend := ⟨.empty, options.verify, 0⟩

/-- Declares and defines one cell after the other. -/
def defineCells (t : SymbolTable) : List StorageCell → Except UnitError Ir.Bank × SymbolTable
  | [] => (.ok [], t)
  | cell :: cells =>
      match t.declareCell cell.symbol .exported with
      | (.error e, t) => (.error (.symbol e), t)
      | (.ok _, t) =>
          match t.defineCell cell.symbol with
          | .error e => (.error (.symbol e), t)
          | .ok t =>
              match defineCells t cells with
              | (.error e, t) => (.error e, t)
              | (.ok bank, t) => (.ok ((cell.symbol, cell.initial.toBytes) :: bank), t)

variable (b : Backend)

/-- Compiles the cells of a layout and gives their first contents. -/
def compileGlobals (layout : StorageLayout) : Except UnitError Ir.Bank × Backend :=
  let (result, table) := defineCells b.table layout.cells
  (result, { b with table })

/-- Generates a unit. A failure uses no number up but keeps what it has declared. -/
def generate (g : Graph) (ix : Index) (storage : StorageLayout) (r : UnitRequest) :
    Except UnitError GeneratedUnit × Backend :=
  let sequence := b.sequence + 1
  match (generateUnit g ix storage r sequence).run b.table with
  | (.ok unit, table) => (.ok unit, { b with table, sequence })
  | (.error e, table) => (.error e, { b with table })

def defineFunctions (t : SymbolTable) : List Ir.Function → Except UnitError Unit × SymbolTable
  | [] => (.ok (), t)
  | f :: fs =>
      match t.defineFunction f.id with
      | .error e => (.error (.symbol e), t)
      | .ok t => defineFunctions t fs

/-- Compiles a generated unit: every function is checked before the first is defined. -/
def compileUnit (unit : GeneratedUnit) : Except UnitError Unit × Backend :=
  match unit.functions.find? fun f => b.verify && !f.wellTyped with
  | some f => (.error (.verification f.name), b)
  | none =>
      let (result, table) := defineFunctions b.table unit.functions
      (result, { b with table })

/-- Generates a unit and compiles it. -/
def build (g : Graph) (ix : Index) (storage : StorageLayout) (r : UnitRequest) :
    Except UnitError GeneratedUnit × Backend :=
  match b.generate g ix storage r with
  | (.error e, b) => (.error e, b)
  | (.ok unit, b) =>
      match b.compileUnit unit with
      | (.error e, b) => (.error e, b)
      | (.ok (), b) => (.ok unit, b)

end Backend

end Dataflow
