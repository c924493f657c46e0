import Dataflow.Kind.Basic

/-!
# Code of computations

Each computation becomes code that leaves its results in values. The code continues
the first block of a function and numbers its own values from a given one on. The code
of stock kinds is straight-line except for `select`, which branches and merges; a host
kind may bring any code.
-/

namespace Dataflow

/-- The place where a computation is emitted. -/
structure EmitSite where
  nodeName : String
  /-- All parameters of the function, the inputs first. -/
  params : List Operand
  inputs : List Operand
  /-- The first value that is not in use. -/
  first : Ir.Var
deriving DecidableEq, Repr

def MathOp.floatOp : MathOp → Ir.FloatOp
  | add => .add
  | sub => .sub
  | mul => .mul
  | div => .div
  | min => .min
  | max => .max

def CompareOp.cond : CompareOp → Ir.Cond
  | lt => .lt
  | le => .le
  | gt => .gt
  | ge => .ge
  | eq => .eq
  | ne => .ne

namespace EmitSite

variable (site : EmitSite)

/-- Operations one after the other, numbered from the first free value on. -/
def straight (ops : List Ir.Operation) (results : List Operand) : Fragment where
  blocks := []
  params := site.params
  body := ops.mapIdx fun k op => .define (site.first + k) op
  results := results

/-- Division that divides by one where the divisor is 0 or -1, and then puts the
quotient right: the negated dividend for -1 and zero for 0. -/
def checkedDivision (a b : Ir.Var) (ty : Ir.Ty) : Fragment :=
  let v := site.first
  site.straight
    [ .equalsImm b 0,
      .equalsImm b (-1),
      .int .or v (v + 1),
      .intConst ty 1,
      .intConst ty 0,
      .select (v + 2) (v + 3) b,
      .int .sdiv a (v + 5),
      .negate a,
      .select (v + 1) (v + 7) (v + 6),
      .select v (v + 4) (v + 8) ]
    [(v + 9, ty)]

def intMath (op : MathOp) (a b : Ir.Var) (ty : Ir.Ty) : Fragment :=
  let single (op : Ir.IntOp) := site.straight [.int op a b] [(site.first, ty)]
  match op with
  | .add => single .add
  | .sub => single .sub
  | .mul => single .mul
  | .div => site.checkedDivision a b ty
  | .min => single .smin
  | .max => single .smax

def branching (cond ifTrue ifFalse : Ir.Var) (ty : Ir.Ty) : Fragment where
  blocks :=
    [ ⟨site.params, [], .branch cond 1 2⟩,
      ⟨[], [], .jump 3 [ifTrue]⟩,
      ⟨[], [], .jump 3 [ifFalse]⟩ ]
  params := [(site.first, ty)]
  body := []
  results := [(site.first, ty)]

def arityError (expected : Nat) : EmitError := .arity expected site.inputs.length

end EmitSite

def Value.constant : Value → Ir.Operation
  | f32 x => .f32Const x
  | f64 x => .f64Const x
  | i32 x => .intConst .i32 x.toInt
  | i64 x => .intConst .i64 x.toInt
  | bool b => .intConst .i8 (if b then 1 else 0)

def Value.irType : Value → Ir.Ty
  | f32 _ => .f32
  | f64 _ => .f64
  | i32 _ => .i32
  | i64 _ => .i64
  | bool _ => .i8

namespace Computation

def emit (site : EmitSite) : Computation → Except EmitError Fragment
  | forward =>
      match site.inputs with
      | [x] => .ok (site.straight [] [x])
      | _ => .error (site.arityError 1)
  | math op ty =>
      match site.inputs with
      | [a, b] =>
          if ty.isFloat then
            .ok (site.straight [.float op.floatOp a.1 b.1] [(site.first, a.2)])
          else if ty.isInteger then .ok (site.intMath op a.1 b.1 a.2)
          else .error (.unsupportedType ty)
      | _ => .error (site.arityError 2)
  | constant value =>
      match site.inputs with
      | [] => .ok (site.straight [value.constant] [(site.first, value.irType)])
      | _ => .error (site.arityError 0)
  | compare op ty =>
      match site.inputs with
      | [a, b] =>
          if ty.isFloat then
            .ok (site.straight [.compareFloat op.cond a.1 b.1] [(site.first, .i8)])
          else if ty.isInteger || (ty == .bool && (op == .eq || op == .ne)) then
            .ok (site.straight [.compareInt op.cond a.1 b.1] [(site.first, .i8)])
          else .error (.unsupportedType ty)
      | _ => .error (site.arityError 2)
  | select ty =>
      match site.inputs with
      | [c, x, y] =>
          match ty.native with
          | none => .error (.unsupportedType ty)
          | some native => .ok (site.branching c.1 x.1 y.1 native)
      | _ => .error (site.arityError 3)
  | clamp ty =>
      match site.inputs with
      | [x, low, high] =>
          let v := site.first
          if ty.isFloat then
            .ok (site.straight [.float .max x.1 low.1, .float .min v high.1] [(v + 1, x.2)])
          else if ty.isInteger then
            .ok (site.straight [.int .smax x.1 low.1, .int .smin v high.1] [(v + 1, x.2)])
          else .error (.unsupportedType ty)
      | _ => .error (site.arityError 3)
  | supplied =>
      .error (.custom
        ("graph input '" ++ site.nodeName ++ "' must be bound to caller-supplied values"))
  | pick positions => .ok (site.straight [] (positions.filterMap fun k => site.inputs[k]?))
  | code fragment => .ok fragment
  | fail error => .error error

/-- What an emitter of a host's own comes to at the place where a node is emitted. -/
def ofEmitter (emitter : EmitSite → Except EmitError Fragment) (site : EmitSite) : Computation :=
  match emitter site with
  | .ok fragment => .code fragment
  | .error error => .fail error

/-- Every emitter can stand behind a host kind. -/
theorem emit_ofEmitter (emitter : EmitSite → Except EmitError Fragment) (site : EmitSite) :
    (ofEmitter emitter site).emit site = emitter site := by
  unfold ofEmitter
  cases emitter site <;> rfl

end Computation

end Dataflow
