import Dataflow.Unit.Generation

/-!
# Entry functions

The entry function of a unit loads the supplied values from the input record, calls
the functions of the nodes in order and stores the requested values in the output
record. Unconnected inputs are loaded from their cells, and results pass from call to
call through stack slots.
-/

namespace Dataflow

/-- The entry function in the making. -/
structure EntryDraft where
  next : Ir.Var
  slots : List Nat
  globals : List Ir.Global
  callees : List Ir.Callee
  body : List Ir.Instr
  /-- The value computed for each output so far. -/
  values : List (PortRef × Ir.Var)
deriving DecidableEq, Repr

namespace EntryDraft

/-- Values 0 and 1 are the addresses of the input and the output record. -/
def start : EntryDraft := ⟨2, [], [], [], [], []⟩

variable (d : EntryDraft)

def push (i : Ir.Instr) : EntryDraft := { d with body := d.body ++ [i] }

/-- Defines the next value. -/
def define (op : Ir.Operation) : EntryDraft :=
  { d with next := d.next + 1, body := d.body ++ [.define d.next op] }

/-- Defines the next value as that of an output. -/
def defineOutput (port : PortRef) (op : Ir.Operation) : EntryDraft :=
  let d' := d.define op
  { d' with values := (port, d.next) :: d.values }

def addGlobal (symbol : String) (colocated : Bool) : EntryDraft :=
  let number := d.globals.length + d.callees.length
  { d with globals := d.globals ++ [⟨symbol, colocated, number⟩] }

def addSlot (size : Nat) : EntryDraft := { d with slots := d.slots ++ [size] }

def addCallee (callee : Ir.Callee) : EntryDraft := { d with callees := d.callees ++ [callee] }

end EntryDraft

/-- What the entry function is made from. -/
structure EntryContext where
  index : Index
  storage : StorageLayout
  plan : UnitPlan
  functions : List (String × Ir.Function)
deriving DecidableEq, Repr

namespace EntryContext

variable (c : EntryContext)

def inconsistent (node : String) : UnitError := .inconsistent node c.plan.version

/-- Loads the outputs of a bound node from the input record. -/
def loadBound (n : Node) (d : EntryDraft) : List Port → Except UnitError EntryDraft
  | [] => .ok d
  | p :: ps => do
      let port := n.portRef p
      match c.plan.bindings.slot? port with
      | none => .error (.partialGraphInput n.name p.identifier)
      | some slot =>
          let ty ← nativeType port p.dataType
          match c.plan.inputLayout.offset? slot with
          | none => .error (c.inconsistent n.name)
          | some offset => loadBound n (d.defineOutput port (.load ty 0 offset)) ps

/-- The value of one input: that of its origin, or a load from its cell. -/
def argument (n : Node) (d : EntryDraft) (p : Port) : Generation (Ir.Var × EntryDraft) := do
  let port := n.portRef p
  let ty ← Generation.ofExcept (nativeType port p.dataType)
  match c.index.dataOrigin? port with
  | some origin =>
      match d.values.lookup origin with
      | none => throw (.dataCycle n.name c.plan.version)
      | some v => return (v, d)
  | none =>
      match c.storage.cell? port with
      | none => throw (c.inconsistent n.name)
      | some cell =>
          let linkage ← Generation.declareCell cell.symbol .imported
          let d' := (d.addGlobal cell.symbol linkage.isFinal).define
            (.globalAddress d.globals.length)
          return (d'.next, d'.define (.load ty d.next 0))

def arguments (n : Node) (d : EntryDraft) : List Port → Generation (List Ir.Var × EntryDraft)
  | [] => return ([], d)
  | p :: ps => do
      let (v, d) ← c.argument n d p
      let (vs, d) ← arguments n d ps
      return (v :: vs, d)

/-- One stack slot for each output, and its address. -/
def outputSlots (d : EntryDraft) : List Ir.Ty → List Ir.Var × EntryDraft
  | [] => ([], d)
  | ty :: tys =>
      let v := d.next
      let (vs, d') := outputSlots ((d.addSlot ty.size).define (.slotAddress d.slots.length)) tys
      (v :: vs, d')

/-- Loads the results of a call from the slots that start at `slot`. -/
def loadResults (n : Node) (d : EntryDraft) (slot : Nat) : List Port → List Ir.Ty → EntryDraft
  | p :: ps, ty :: tys =>
      loadResults n (d.defineOutput (n.portRef p) (.slotLoad ty slot)) (slot + 1) ps tys
  | _, _ => d

def call (n : Node) (d : EntryDraft) : Generation EntryDraft := do
  let (args, d) ← c.arguments n d n.inputs
  let types ← Generation.ofExcept (n.portTypes .output)
  let firstSlot := d.slots.length
  let (addresses, d) := outputSlots d types
  match c.functions.lookup n.name with
  | none => throw (c.inconsistent n.name)
  | some f =>
      let d := (d.addCallee ⟨f.id, f.params⟩).push
        (.call d.callees.length (args ++ addresses))
      return loadResults n d firstSlot n.outputs types

def evaluate (d : EntryDraft) : List Node → Generation EntryDraft
  | [] => return d
  | n :: ns => do
      if c.plan.bindings.binds n.name then
        evaluate (← Generation.ofExcept (c.loadBound n d n.outputs)) ns
      else evaluate (← c.call n d) ns

/-- Stores the requested values from field `field` of the output record on. -/
def storeOutputs (d : EntryDraft) (field : Nat) : List TypedPort → Except UnitError EntryDraft
  | [] => .ok d
  | (source, _) :: rest =>
      match d.values.lookup source, c.plan.outputLayout.offset? field with
      | some v, some offset => storeOutputs (d.push (.store v 1 offset)) (field + 1) rest
      | _, _ => .error (c.inconsistent source.node)

def generate (name : String) : Generation Ir.Function := do
  let params := [Ir.Ty.address, Ir.Ty.address]
  let id ← Generation.declareFunction name .exported params
  let d ← c.evaluate .start c.plan.order
  let d ← Generation.ofExcept (c.storeOutputs d 0 c.plan.outputs)
  return {
    id, name, params
    slots := d.slots
    globals := d.globals
    callees := d.callees
    blocks := [⟨[(0, .address), (1, .address)], d.body, .leave⟩] }

end EntryContext

end Dataflow
