import Dataflow.Binary.Arithmetic
import Dataflow.Bytes
import Dataflow.Ir.Basic

/-!
# Machine words

A machine word is a scalar or the address of a region of memory: one of the two
records, a stack slot or a cell. Integer arithmetic wraps, and a division without a
representable quotient traps.
-/

namespace Dataflow.Ir

inductive Region
  | input
  | output
  | slot (index : Nat)
  | cell (symbol : String)
deriving DecidableEq, Repr

inductive Word
  | i8 (x : BitVec 8)
  | i32 (x : BitVec 32)
  | i64 (x : BitVec 64)
  | f32 (x : BitVec 32)
  | f64 (x : BitVec 64)
  | address (region : Region)
deriving DecidableEq, Repr

inductive Trap
  | undefinedValue (var : Var)
  | illTyped
  | division
  | badAddress
  | badBlock
  | badCall
deriving DecidableEq, Repr

namespace Word

def ty : Word → Ty
  | i8 _ => .i8
  | i32 _ => .i32
  | i64 _ => .i64
  | f32 _ => .f32
  | f64 _ => .f64
  | address _ => .address

def ofInt : Ty → Int → Option Word
  | .i8, n => some (i8 (BitVec.ofInt 8 n))
  | .i32, n => some (i32 (BitVec.ofInt 32 n))
  | .i64, n => some (i64 (BitVec.ofInt 64 n))
  | .f32, _ | .f64, _ => none

def ofBool (b : Bool) : Word := i8 (if b then 1 else 0)

def ofBytes (ty : Ty) (bs : Bytes) : Word :=
  match ty with
  | .i8 => i8 (BitVec.ofNat 8 (Bytes.toNat bs))
  | .i32 => i32 (BitVec.ofNat 32 (Bytes.toNat bs))
  | .i64 => i64 (BitVec.ofNat 64 (Bytes.toNat bs))
  | .f32 => f32 (BitVec.ofNat 32 (Bytes.toNat bs))
  | .f64 => f64 (BitVec.ofNat 64 (Bytes.toNat bs))

/-- The memory image of a scalar. -/
def toBytes : Word → Option Bytes
  | i8 x => some (Bytes.ofNat 1 x.toNat)
  | i32 x => some (Bytes.ofNat 4 x.toNat)
  | i64 x => some (Bytes.ofNat 8 x.toNat)
  | f32 x => some (Bytes.ofNat 4 x.toNat)
  | f64 x => some (Bytes.ofNat 8 x.toNat)
  | address _ => none

/-- Whether a branch on the word is taken. -/
def isTrue? : Word → Option Bool
  | i8 x => some (x != 0)
  | i32 x => some (x != 0)
  | i64 x => some (x != 0)
  | _ => none

end Word

namespace IntOp

/-- Integer arithmetic wraps; division by zero and of the least number by -1 trap. -/
def eval {w : Nat} (op : IntOp) (x y : BitVec w) : Except Trap (BitVec w) :=
  match op with
  | add => .ok (x + y)
  | sub => .ok (x - y)
  | mul => .ok (x * y)
  | sdiv =>
      if y = 0 ∨ (x = BitVec.intMin w ∧ y = -1) then .error .division else .ok (x.sdiv y)
  | smin => .ok (if x.sle y then x else y)
  | smax => .ok (if x.sle y then y else x)
  | or => .ok (x ||| y)

def apply (op : IntOp) : Word → Word → Except Trap Word
  | .i8 x, .i8 y => (op.eval x y).map .i8
  | .i32 x, .i32 y => (op.eval x y).map .i32
  | .i64 x, .i64 y => (op.eval x y).map .i64
  | _, _ => .error .illTyped

end IntOp

namespace FloatOp

def eval {f : FloatFormat} (op : FloatOp) (x y : BitVec f.width) : BitVec f.width :=
  match op with
  | add => FloatFormat.add x y
  | sub => FloatFormat.sub x y
  | mul => FloatFormat.mul x y
  | div => FloatFormat.div x y
  | min => FloatFormat.minimum x y
  | max => FloatFormat.maximum x y

def apply (op : FloatOp) : Word → Word → Except Trap Word
  | .f32 x, .f32 y => .ok (.f32 (op.eval (f := binary32) x y))
  | .f64 x, .f64 y => .ok (.f64 (op.eval (f := binary64) x y))
  | _, _ => .error .illTyped

end FloatOp

namespace Cond

def holdsInt {w : Nat} (c : Cond) (x y : BitVec w) : Bool :=
  match c with
  | lt => x.slt y
  | le => x.sle y
  | gt => y.slt x
  | ge => y.sle x
  | eq => x == y
  | ne => x != y

def holdsFloat {f : FloatFormat} (c : Cond) (x y : BitVec f.width) : Bool :=
  match c with
  | lt => FloatFormat.lt x y
  | le => FloatFormat.le x y
  | gt => FloatFormat.lt y x
  | ge => FloatFormat.le y x
  | eq => FloatFormat.eq x y
  | ne => !FloatFormat.eq x y

def applyInt (c : Cond) : Word → Word → Except Trap Word
  | .i8 x, .i8 y => .ok (.ofBool (c.holdsInt x y))
  | .i32 x, .i32 y => .ok (.ofBool (c.holdsInt x y))
  | .i64 x, .i64 y => .ok (.ofBool (c.holdsInt x y))
  | _, _ => .error .illTyped

def applyFloat (c : Cond) : Word → Word → Except Trap Word
  | .f32 x, .f32 y => .ok (.ofBool (c.holdsFloat (f := binary32) x y))
  | .f64 x, .f64 y => .ok (.ofBool (c.holdsFloat (f := binary64) x y))
  | _, _ => .error .illTyped

end Cond

def Word.negate : Word → Except Trap Word
  | .i8 x => .ok (.i8 (-x))
  | .i32 x => .ok (.i32 (-x))
  | .i64 x => .ok (.i64 (-x))
  | _ => .error .illTyped

def Word.equalsImm (imm : Int) : Word → Except Trap Word
  | .i8 x => .ok (.ofBool (x == BitVec.ofInt 8 imm))
  | .i32 x => .ok (.ofBool (x == BitVec.ofInt 32 imm))
  | .i64 x => .ok (.ofBool (x == BitVec.ofInt 64 imm))
  | _ => .error .illTyped

end Dataflow.Ir
