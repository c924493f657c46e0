import Dataflow.Index
import Dataflow.Symbol

/-!
# Storage layout

Every unconnected input of a computing node has a cell that holds its current value,
unless its type has no native image. Cells are listed in the order of the nodes and
their ports, and their symbols are distinct.
-/

namespace Dataflow

structure StorageCell where
  port : PortRef
  symbol : String
  dataType : DataType
  initial : Value
deriving DecidableEq, Repr

structure StorageLayout where
  version : Version
  cells : List StorageCell
deriving DecidableEq, Repr

namespace StorageLayout

/-- The value a new cell starts from. -/
def initial? (p : Port) : Option Value := p.value <|> p.dataType.zero

/-- Appends the cells of the given inputs, choosing symbols not taken so far. -/
def addCells (cells : List StorageCell) : List (Node × Port) → List StorageCell
  | [] => cells
  | (n, p) :: rest =>
      match initial? p with
      | none => addCells cells rest
      | some initial =>
          let symbol :=
            Symbol.unique (Symbol.ofInput n.name p.identifier) (cells.map StorageCell.symbol)
          addCells (cells ++ [⟨n.portRef p, symbol, p.dataType, initial⟩]) rest

def build (g : Graph) (ix : Index) : StorageLayout :=
  ⟨ix.version, addCells [] (ix.allUnlinkedInputs g)⟩

variable (layout : StorageLayout)

def cell? (port : PortRef) : Option StorageCell := layout.cells.find? fun c => c.port == port

end StorageLayout

end Dataflow
