import Dataflow.Kind.Basic
import Dataflow.Proofs.Ir.Frames

/-!
# Meaning of computations

What a computation makes of its input words, said without code: integers wrap, division
truncates, comparisons answer with the byte 1 or 0. Only for code of a host's own there is
nothing to say but what it leaves in slots of its own. A computation that its inputs do not
suit has no results.
-/

namespace Dataflow

open Ir

namespace MathOp

/-- Integer arithmetic. A quotient by zero is zero, and the least number divided by -1 is
itself. -/
def onInts {w : Nat} (op : MathOp) (x y : BitVec w) : BitVec w :=
  match op with
  | add => x + y
  | sub => x - y
  | mul => x * y
  | div => x.sdiv y
  | min => if x.sle y then x else y
  | max => if x.sle y then y else x

def onFloats {f : FloatFormat} (op : MathOp) (x y : BitVec f.width) : BitVec f.width :=
  match op with
  | add => FloatFormat.add x y
  | sub => FloatFormat.sub x y
  | mul => FloatFormat.mul x y
  | div => FloatFormat.div x y
  | min => FloatFormat.minimum x y
  | max => FloatFormat.maximum x y

/-- Arithmetic of a type, on two words of one width. -/
def eval? (op : MathOp) (ty : DataType) : Word → Word → Option Word
  | .i8 x, .i8 y => if ty.isInteger then some (.i8 (op.onInts x y)) else none
  | .i32 x, .i32 y => if ty.isInteger then some (.i32 (op.onInts x y)) else none
  | .i64 x, .i64 y => if ty.isInteger then some (.i64 (op.onInts x y)) else none
  | .f32 x, .f32 y =>
      if ty.isFloat then some (.f32 (op.onFloats (f := binary32) x y)) else none
  | .f64 x, .f64 y =>
      if ty.isFloat then some (.f64 (op.onFloats (f := binary64) x y)) else none
  | _, _ => none

/-- There is no arithmetic of truth values. -/
theorem eval?_bool (op : MathOp) (x y : Word) : op.eval? .bool x y = none := by
  unfold eval?
  split <;> rfl

end MathOp

namespace CompareOp

/-- Comparison of signed integers. -/
def holdsInts {w : Nat} (op : CompareOp) (x y : BitVec w) : Bool :=
  match op with
  | lt => x.slt y
  | le => x.sle y
  | gt => y.slt x
  | ge => y.sle x
  | eq => x == y
  | ne => x != y

def holdsFloats {f : FloatFormat} (op : CompareOp) (x y : BitVec f.width) : Bool :=
  match op with
  | lt => FloatFormat.lt x y
  | le => FloatFormat.le x y
  | gt => FloatFormat.lt y x
  | ge => FloatFormat.le y x
  | eq => FloatFormat.eq x y
  | ne => !FloatFormat.eq x y

/-- Truth values can be equal or not, but have no order. -/
def ordersInts (op : CompareOp) (ty : DataType) : Bool :=
  ty.isInteger || (ty == .bool && (op == .eq || op == .ne))

def eval? (op : CompareOp) (ty : DataType) : Word → Word → Option Word
  | .i8 x, .i8 y => if op.ordersInts ty then some (.ofBool (op.holdsInts x y)) else none
  | .i32 x, .i32 y => if op.ordersInts ty then some (.ofBool (op.holdsInts x y)) else none
  | .i64 x, .i64 y => if op.ordersInts ty then some (.ofBool (op.holdsInts x y)) else none
  | .f32 x, .f32 y =>
      if ty.isFloat then some (.ofBool (op.holdsFloats (f := binary32) x y)) else none
  | .f64 x, .f64 y =>
      if ty.isFloat then some (.ofBool (op.holdsFloats (f := binary64) x y)) else none
  | _, _ => none

theorem eval?_bool {op : CompareOp} (heq : op ≠ .eq) (hne : op ≠ .ne) (x y : Word) :
    op.eval? .bool x y = none := by
  cases op with
  | eq => contradiction
  | ne => contradiction
  | _ =>
      unfold eval?
      split <;> rfl

end CompareOp

namespace Fragment

/-- The code as a function, which stores its results where the parameters behind this many inputs
point to. -/
def function (fragment : Fragment) (inputs : Nat) : Function where
  id := 0
  name := ""
  params := []
  slots := []
  globals := []
  callees := []
  blocks := fragment.blocks ++ [⟨fragment.params, fragment.body ++
    fragment.results.mapIdx fun k result => .store result.1 (inputs + k) 0, .leave⟩]

/-- What code makes of its input words. -/
def eval? (fragment : Fragment) (args : List Word) : Option (List Word) :=
  (fragment.function args.length).results? (fragment.results.map Prod.snd) args

end Fragment

namespace Computation

/-- The results of a computation, in the order of the outputs. -/
def eval? : Computation → List Word → Option (List Word)
  | forward, [x] => some [x]
  | math op ty, [x, y] => (op.eval? ty x y).map fun w => [w]
  | constant value, [] => some [value.word]
  | compare op ty, [x, y] => (op.eval? ty x y).map fun w => [w]
  | select _, [condition, x, y] =>
      condition.isTrue?.map fun taken => [if taken then x else y]
  | clamp ty, [x, low, high] =>
      ((MathOp.max.eval? ty x low).bind fun w => MathOp.min.eval? ty w high).map
        fun w => [w]
  | pick positions, inputs => some (positions.filterMap fun k => inputs[k]?)
  | code fragment, inputs => fragment.eval? inputs
  | _, _ => none

end Computation

end Dataflow
