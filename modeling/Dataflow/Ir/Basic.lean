import Dataflow.Port

/-!
# Intermediate code

Functions in static single assignment form. A value is a number that is defined once;
a function is a list of blocks, of which the first takes the parameters, and jumps
lead to later blocks only. Results leave a function through memory.
-/

namespace Dataflow

namespace Ir

inductive Ty
  | i8
  | i32
  | i64
  | f32
  | f64
deriving DecidableEq, Repr

namespace Ty

def size : Ty → Nat
  | i8 => 1
  | i32 => 4
  | i64 => 8
  | f32 => 4
  | f64 => 8

def isInt : Ty → Bool
  | i8 | i32 | i64 => true
  | f32 | f64 => false

def name : Ty → String
  | i8 => "i8"
  | i32 => "i32"
  | i64 => "i64"
  | f32 => "f32"
  | f64 => "f64"

/-- Addresses are 64-bit integers. -/
abbrev address : Ty := i64

end Ty

abbrev Var := Nat

inductive IntOp
  | add
  | sub
  | mul
  | sdiv
  | smin
  | smax
  | or
deriving DecidableEq, Repr

inductive FloatOp
  | add
  | sub
  | mul
  | div
  | min
  | max
deriving DecidableEq, Repr

/-- Order and equality, signed on integers. -/
inductive Cond
  | lt
  | le
  | gt
  | ge
  | eq
  | ne
deriving DecidableEq, Repr

/-- What defines one value. -/
inductive Operation
  | intConst (ty : Ty) (imm : Int)
  | f32Const (bits : BitVec 32)
  | f64Const (bits : BitVec 64)
  | int (op : IntOp) (x y : Var)
  | float (op : FloatOp) (x y : Var)
  | negate (x : Var)
  | compareInt (cond : Cond) (x y : Var)
  | compareFloat (cond : Cond) (x y : Var)
  | equalsImm (x : Var) (imm : Int)
  | select (cond x y : Var)
  | load (ty : Ty) (base : Var) (offset : Nat)
  | globalAddress (index : Nat)
  | slotAddress (slot : Nat)
  | slotLoad (ty : Ty) (slot : Nat)
deriving DecidableEq, Repr

inductive Instr
  | define (var : Var) (op : Operation)
  | store (value base : Var) (offset : Nat)
  | call (callee : Nat) (args : List Var)
deriving DecidableEq, Repr

inductive Terminator
  | jump (block : Nat) (args : List Var)
  | branch (cond : Var) (ifTrue ifFalse : Nat)
  | leave
deriving DecidableEq, Repr

structure Block where
  params : List (Var × Ty)
  body : List Instr
  terminator : Terminator
deriving DecidableEq, Repr

/-- A reference to a cell from inside a function. -/
structure Global where
  symbol : String
  /-- Whether the cell is known to be defined in the same table. -/
  colocated : Bool
  /-- Counts the references of a function to cells and functions together. -/
  number : Nat
deriving DecidableEq, Repr

/-- A reference to another function. -/
structure Callee where
  id : Nat
  params : List Ty
deriving DecidableEq, Repr

structure Function where
  id : Nat
  name : String
  params : List Ty
  /-- The sizes of the stack slots. -/
  slots : List Nat
  globals : List Global
  callees : List Callee
  blocks : List Block
deriving DecidableEq, Repr

end Ir

/-- The type in which values of a port travel through code. -/
def DataType.native : DataType → Option Ir.Ty
  | .f32 => some .f32
  | .f64 => some .f64
  | .i32 => some .i32
  | .i64 => some .i64
  | .bool => some .i8
  | .handle => none

end Dataflow
