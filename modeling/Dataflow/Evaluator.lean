import Dataflow.Cache

/-!
# Evaluator

An evaluator serves requests on one graph. It compiles each request once per version,
keeps the values of unconnected inputs in cells that compiled units load from, and
takes over edited graphs: a new structure drops what was compiled, new authored values
only reach the cells.

Every operation gives its result and the evaluator afterwards, also when it fails.
-/

namespace Dataflow

structure Evaluator where
  graph : Graph
  index : Index
  /-- Set when the index has to be built again before it is used. -/
  stale : Bool
  cache : Cache
  options : Options
  /-- The contents of all cells compiled so far. Banks are never removed: units that
  the cache has dropped still load from theirs. -/
  banks : List Ir.Bank
deriving DecidableEq, Repr

namespace Evaluator

def new (g : Graph) (options : Options) : Evaluator where
  graph := g.remember
  index := Index.build g.remember
  stale := false
  cache := .empty
  options := options
  banks := []

variable (e : Evaluator)

def version : Version := e.graph.version

def refresh : Evaluator :=
  if e.stale || e.index.version != e.version then
    { e with index := Index.build e.graph, stale := false }
  else e

def invalidate (version : Version) : Nat × Evaluator :=
  let (dropped, cache) := e.cache.invalidate version
  (dropped, { e with cache })

def markStale : Evaluator := { (e.invalidate e.version).2 with stale := true }

/-! ## Cells -/

def currentGlobals : Except UnitError CompiledGlobals :=
  match e.cache.globals? e.version with
  | none => .error (.globalsNotCompiled e.version)
  | some globals => .ok globals

def bank (k : Nat) : Ir.Bank := e.banks[k]?.getD []

def putCell (k : Nat) (symbol : String) (value : Value) : Evaluator :=
  { e with banks := e.banks.modify k fun bank => bank.put symbol value.toBytes }

def writeCell (globals : CompiledGlobals) (port : PortRef) (value : Value) :
    Except UnitError Evaluator :=
  match globals.layout.cell? port with
  | none => .error (.unknownStorageCell port)
  | some cell =>
      if value.dataType = cell.dataType then .ok (e.putCell globals.bank cell.symbol value)
      else .error (.valueTypeMismatch port cell.dataType value.dataType)

/-- Writes the authored values of `g` to the given cells and counts the values. -/
def syncCells (globals : CompiledGlobals) (g : Graph) (written : Nat) :
    List StorageCell → Evaluator → Except UnitError Nat × Evaluator
  | [], e => (.ok written, e)
  | cell :: cells, e =>
      match g.port cell.port .input with
      | .error _ => (.error (.inconsistent cell.port.node g.version), e)
      | .ok p =>
          match p.value with
          | none => syncCells globals g written cells e
          | some value =>
              match e.writeCell globals cell.port value with
              | .error err => (.error err, e)
              | .ok e => syncCells globals g (written + 1) cells e

def syncFrom (globals : CompiledGlobals) (g : Graph) : Except UnitError Nat × Evaluator :=
  if g.version = globals.version then syncCells globals g 0 globals.layout.cells e
  else (.error (.globalsNotCompiled g.version), e)

/-- Sets the cell of an unconnected input for the runs to come. -/
def writeInput (port : PortRef) (value : Value) : Except UnitError Unit × Evaluator :=
  match e.currentGlobals with
  | .error err => (.error err, e)
  | .ok globals =>
      match e.writeCell globals port value with
      | .error err => (.error err, e)
      | .ok e => (.ok (), e)

/-- Sets the cell of an unconnected input and its authored value. -/
def setInput (port : PortRef) (value : Value) : Except UnitError Unit × Evaluator :=
  match e.writeInput port value with
  | (.error err, e) => (.error err, e)
  | (.ok (), e) =>
      match e.graph.setInputValue port value with
      | .error _ => (.error (.inconsistent port.node e.version), e)
      | .ok graph => (.ok (), { e with graph })

def readInput (port : PortRef) : Except UnitError Value := do
  let globals ← e.currentGlobals
  match globals.layout.cell? port with
  | none => .error (.unknownStorageCell port)
  | some cell =>
      let image := (e.bank globals.bank).lookup cell.symbol
      match image.bind (Value.ofBytes? cell.dataType) with
      | none => .error (.unsupportedType port cell.dataType)
      | some value => .ok value

/-- Writes the authored values of the graph to all cells. -/
def syncInputs : Except UnitError Nat × Evaluator :=
  match e.currentGlobals with
  | .error err => (.error err, e)
  | .ok globals => e.syncFrom globals e.graph

/-- Takes over an edited graph. With an unchanged version everything compiled stays
and only the authored values are written to the cells. -/
def replaceGraph (g : Graph) : Except UnitError Unit × Evaluator :=
  let old := e.version
  let e := { e with graph := g.remember }
  if e.version ≠ old then (.ok (), { (e.invalidate old).2 with stale := true })
  else
    match e.cache.globals? e.version with
    | none => (.ok (), e)
    | some globals =>
        let (result, e) := e.syncFrom globals e.graph
        (result.map fun _ => (), e)

/-! ## Compilation -/

/-- Compiles the cells of the present version unless that is done. -/
def ensureGlobals : Except UnitError CompiledGlobals × Evaluator :=
  let e := e.refresh
  match e.cache.globals? e.version with
  | some globals => (.ok globals, e)
  | none =>
      let layout := StorageLayout.build e.graph e.index
      match (Backend.new e.options).compileGlobals layout with
      | (.error err, _) => (.error err, e)
      | (.ok bank, backend) =>
          let globals : CompiledGlobals := ⟨layout, backend, e.banks.length⟩
          (.ok globals,
            { e with cache := e.cache.setGlobals globals, banks := e.banks ++ [bank] })

/-- Compiles a request that is not in the cache. -/
def compileNew (r : UnitRequest) : Except UnitError CompiledUnit × Evaluator :=
  match e.ensureGlobals with
  | (.error err, e) => (.error err, e)
  | (.ok globals, e) =>
      match globals.backend.build e.graph e.index globals.layout r with
      | (.error err, backend) => (.error err, { e with cache := e.cache.setBackend backend })
      | (.ok generated, backend) =>
          let unit := CompiledUnit.ofGenerated generated globals.bank
          (.ok unit, { e with cache := (e.cache.setBackend backend).insert unit })

/-- The unit of a request, from the cache if it is there. -/
def compile (r : UnitRequest) : Except UnitError CompiledUnit × Evaluator :=
  if r.outputs.isEmpty then (.error .emptyRequest, e)
  else
    let e := e.refresh
    match e.cache.get e.version r with
    | (some unit, cache) => (.ok unit, { e with cache })
    | (none, cache) => { e with cache := cache }.compileNew r

/-- The code that a request would be compiled to by a new backend. -/
def code (r : UnitRequest) : Except UnitError String × Evaluator :=
  let e := e.refresh
  let layout := StorageLayout.build e.graph e.index
  let (result, _) := (Backend.new e.options).generate e.graph e.index layout r
  (result.map GeneratedUnit.text, e)

/-! ## Running units -/

/-- Refuses units of other versions. -/
def checkCurrent (unit : CompiledUnit) : Except UnitError Unit :=
  if unit.version = e.version then .ok ()
  else .error (.staleUnit unit.version e.version)

/-- Runs a unit of this evaluator, whatever its version. -/
def run (unit : CompiledUnit) (values : List Value) : Except UnitError (List Value) :=
  unit.invoke (e.bank unit.bank) values

def invoke (unit : CompiledUnit) (values : List Value) : Except UnitError (List Value) := do
  e.checkCurrent unit
  e.run unit values

/-- Compiles a request, if need be, and runs it. -/
def evaluateRequest (r : UnitRequest) (values : List Value) :
    Except UnitError (List Value) × Evaluator :=
  match e.compile r with
  | (.error err, e) => (.error err, e)
  | (.ok unit, e) => (e.invoke unit values, e)

def evaluate (outputs : List PortRef) : Except UnitError (List Value) × Evaluator :=
  e.evaluateRequest ⟨outputs, []⟩ []

def evaluateWith (inputs : List PortRef) (values : List Value) (outputs : List PortRef) :
    Except UnitError (List Value) × Evaluator :=
  e.evaluateRequest ⟨outputs, inputs⟩ values

end Evaluator

end Dataflow
