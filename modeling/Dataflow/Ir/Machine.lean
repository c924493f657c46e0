import Dataflow.Ir.Memory

/-!
# Running intermediate code

Running a function ends with the memory it leaves or with a trap; code that passes the
type check and divides safely does not trap. An entry function calls leaf functions,
which store their results in its stack slots; by number a function can only name slots
that it has declared itself.
-/

namespace Dataflow.Ir

/-- The values defined so far, the latest first. -/
abbrev Env := List (Var × Word)

namespace Env

def get (env : Env) (v : Var) : Except Trap Word :=
  match env.lookup v with
  | none => .error (.undefinedValue v)
  | some word => .ok word

def getRegion (env : Env) (v : Var) : Except Trap Region := do
  match ← env.get v with
  | .address region => .ok region
  | _ => .error .illTyped

def getAll (env : Env) : List Var → Except Trap (List Word)
  | [] => .ok []
  | v :: vs => do return (← env.get v) :: (← env.getAll vs)

end Env

def Operation.eval (f : Function) (env : Env) (m : Memory) : Operation → Except Trap Word
  | intConst ty imm =>
      match Word.ofInt ty imm with
      | none => .error .illTyped
      | some word => .ok word
  | f32Const bits => .ok (.f32 bits)
  | f64Const bits => .ok (.f64 bits)
  | int op x y => do op.apply (← env.get x) (← env.get y)
  | float op x y => do op.apply (← env.get x) (← env.get y)
  | negate x => do (← env.get x).negate
  | compareInt cond x y => do cond.applyInt (← env.get x) (← env.get y)
  | compareFloat cond x y => do cond.applyFloat (← env.get x) (← env.get y)
  | equalsImm x imm => do (← env.get x).equalsImm imm
  | select cond x y => do
      let whenTrue ← env.get x
      let whenFalse ← env.get y
      match (← env.get cond).isTrue? with
      | none => .error .illTyped
      | some taken => .ok (if taken then whenTrue else whenFalse)
  | load ty base offset => do m.load ty (← env.getRegion base) offset
  | globalAddress index =>
      match f.globals[index]? with
      | none => .error .badAddress
      | some g => .ok (.address (.cell g.symbol))
  | slotAddress slot =>
      if slot < f.slots.length then .ok (.address (.slot slot)) else .error .badAddress
  | slotLoad ty slot =>
      if slot < f.slots.length then m.load ty (.slot slot) 0 else .error .badAddress

/-- How calls are carried out: the callee's id, its arguments and the memory. -/
abbrev Calls := Nat → List Word → Memory → Except Trap Memory

def Instr.step (calls : Calls) (f : Function) (env : Env) (m : Memory) :
    Instr → Except Trap (Env × Memory)
  | define var op => do return ((var, ← op.eval f env m) :: env, m)
  | store value base offset => do
      return (env, ← m.store (← env.get value) (← env.getRegion base) offset)
  | call callee args =>
      match f.callees[callee]? with
      | none => .error .badCall
      | some c => do return (env, ← calls c.id (← env.getAll args) m)

def runBody (calls : Calls) (f : Function) (env : Env) (m : Memory) :
    List Instr → Except Trap (Env × Memory)
  | [] => .ok (env, m)
  | i :: is => do
      let (env, m) ← i.step calls f env m
      runBody calls f env m is

def bindParams (env : Env) : List (Var × Ty) → List Word → Except Trap Env
  | [], [] => .ok env
  | (v, _) :: params, word :: words => bindParams ((v, word) :: env) params words
  | _, _ => .error .illTyped

/-- Runs from a block on. Only jumps to later blocks are carried out. -/
def runBlocks (calls : Calls) (f : Function) (index : Nat) (args : List Word) (env : Env)
    (m : Memory) : Except Trap Memory :=
  if _h : index < f.blocks.length then
    let block := f.blocks[index]
    match bindParams env block.params args with
    | .error trap => .error trap
    | .ok env =>
        match runBody calls f env m block.body with
        | .error trap => .error trap
        | .ok (env, m) =>
            match block.terminator with
            | .leave => .ok m
            | .jump target vars =>
                match env.getAll vars with
                | .error trap => .error trap
                | .ok words =>
                    if _later : index < target then runBlocks calls f target words env m
                    else .error .badBlock
            | .branch cond ifTrue ifFalse =>
                match env.get cond with
                | .error trap => .error trap
                | .ok word =>
                    match word.isTrue? with
                    | none => .error .illTyped
                    | some taken =>
                        let target := if taken then ifTrue else ifFalse
                        if _later : index < target then runBlocks calls f target [] env m
                        else .error .badBlock
  else .error .badBlock
termination_by f.blocks.length - index
decreasing_by all_goals omega

def Function.run (f : Function) (calls : Calls) (args : List Word) (m : Memory) :
    Except Trap Memory :=
  runBlocks calls f 0 args [] m

/-- A function that calls no other. -/
def Function.runLeaf (f : Function) (args : List Word) (m : Memory) : Except Trap Memory :=
  f.run (fun _ _ _ => .error .badCall) args m

/-- Carries out calls among `functions`, each of which calls no other. -/
def callsAmong (functions : List Function) : Calls := fun id args m =>
  match functions.find? fun f => f.id == id with
  | none => .error .badCall
  | some f => f.runLeaf args m

/-- Runs an entry function on an input record and gives the output record it leaves. -/
def Function.runEntry (f : Function) (functions : List Function) (cells : Bank)
    (input output : Bytes) : Except Trap Bytes := do
  let slots := f.slots.map fun size => List.replicate size 0
  let m ← f.run (callsAmong functions) [.address .input, .address .output]
    ⟨input, output, slots, cells⟩
  return m.output

end Dataflow.Ir
