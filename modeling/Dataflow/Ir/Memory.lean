import Dataflow.Ir.Word

/-!
# Memory

The regions that code can reach: the input and the output record, the stack slots of
the running entry function and the cells.
-/

namespace Dataflow.Ir

/-- The contents of cells by symbol. -/
abbrev Bank := List (String × Bytes)

structure Memory where
  input : Bytes
  output : Bytes
  slots : List Bytes
  cells : Bank
deriving DecidableEq, Repr

def Bank.put (bank : Bank) (symbol : String) (image : Bytes) : Bank :=
  bank.map fun cell => if cell.1 = symbol then (symbol, image) else cell

namespace Memory

variable (m : Memory)

def bytes? : Region → Option Bytes
  | .input => some m.input
  | .output => some m.output
  | .slot k => m.slots[k]?
  | .cell symbol => m.cells.lookup symbol

def put (region : Region) (image : Bytes) : Memory :=
  match region with
  | .input => { m with input := image }
  | .output => { m with output := image }
  | .slot k => { m with slots := m.slots.set k image }
  | .cell symbol => { m with cells := Bank.put m.cells symbol image }

def load (ty : Ty) (region : Region) (offset : Nat) : Except Trap Word :=
  match (m.bytes? region).bind fun bs => bs.slice? offset ty.size with
  | none => .error .badAddress
  | some image => .ok (.ofBytes ty image)

/-- Stores a scalar; bytes past the end of the region are lost. -/
def store (word : Word) (region : Region) (offset : Nat) : Except Trap Memory :=
  match word.toBytes, m.bytes? region with
  | some image, some bs => .ok (m.put region (bs.overwrite offset image))
  | none, _ => .error .illTyped
  | _, none => .error .badAddress

end Memory

end Dataflow.Ir
