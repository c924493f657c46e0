import Dataflow.Ir.Basic

/-!
# Type check of intermediate code

Arithmetic wants operands of one type and of the right class, jumps and calls want the
types of the parameters, and conditions are integers. The type of each value follows
from the operation that defines it.
-/

namespace Dataflow.Ir

abbrev TypeEnv := List (Var × Ty)

namespace Operation

/-- The type of the value an operation defines. -/
def resultType (env : TypeEnv) : Operation → Option Ty
  | intConst ty _ => some ty
  | f32Const _ => some .f32
  | f64Const _ => some .f64
  | int _ x _ | float _ x _ | negate x => env.lookup x
  | compareInt _ _ _ | compareFloat _ _ _ | equalsImm _ _ => some .i8
  | select _ x _ => env.lookup x
  | load ty _ _ | slotLoad ty _ => some ty
  | globalAddress _ | slotAddress _ => some .address

def hasClass (env : TypeEnv) (int : Bool) (x : Var) : Bool :=
  match env.lookup x with
  | none => false
  | some ty => ty.isInt == int

def sameType (env : TypeEnv) (x y : Var) : Bool :=
  match env.lookup x, env.lookup y with
  | some s, some t => s == t
  | _, _ => false

def wellTyped (f : Function) (env : TypeEnv) : Operation → Bool
  | intConst ty _ => ty.isInt
  | f32Const _ | f64Const _ => true
  | int _ x y | compareInt _ x y => hasClass env true x && sameType env x y
  | float _ x y | compareFloat _ x y => hasClass env false x && sameType env x y
  | negate x | equalsImm x _ => hasClass env true x
  | select c x y => hasClass env true c && sameType env x y
  | load _ base _ => env.lookup base == some .address
  | globalAddress index => index < f.globals.length
  | slotAddress slot => slot < f.slots.length
  | slotLoad ty slot => f.slots[slot]? == some ty.size

end Operation

def argsMatch (env : TypeEnv) (args : List Var) (types : List Ty) : Bool :=
  (args.map fun v => env.lookup v) == types.map some

def Instr.wellTyped (f : Function) (env : TypeEnv) : Instr → Bool
  | define _ op => op.wellTyped f env
  | store value base _ => (env.lookup value).isSome && env.lookup base == some .address
  | call callee args =>
      match f.callees[callee]? with
      | none => false
      | some c => argsMatch env args c.params

def paramTypes (f : Function) (block : Nat) : Option (List Ty) :=
  f.blocks[block]?.map fun b => b.params.map Prod.snd

def Terminator.wellTyped (f : Function) (env : TypeEnv) : Terminator → Bool
  | leave => true
  | jump block args =>
      match paramTypes f block with
      | none => false
      | some types => argsMatch env args types
  | branch cond ifTrue ifFalse =>
      Operation.hasClass env true cond && paramTypes f ifTrue == some []
        && paramTypes f ifFalse == some []

/-- Adds the value an instruction defines. -/
def Instr.extend (env : TypeEnv) : Instr → TypeEnv
  | define var op =>
      match op.resultType env with
      | none => env
      | some ty => (var, ty) :: env
  | _ => env

def bodyWellTyped (f : Function) (env : TypeEnv) : List Instr → Bool × TypeEnv
  | [] => (true, env)
  | i :: is =>
      let (rest, env') := bodyWellTyped f (i.extend env) is
      (i.wellTyped f env && rest, env')

def blocksWellTyped (f : Function) (env : TypeEnv) : List Block → Bool
  | [] => true
  | b :: bs =>
      let (body, env) := bodyWellTyped f (b.params.reverse ++ env) b.body
      body && b.terminator.wellTyped f env && blocksWellTyped f env bs

def Function.wellTyped (f : Function) : Bool :=
  paramTypes f 0 == some f.params && blocksWellTyped f [] f.blocks

end Dataflow.Ir
