import Dataflow.Proofs.Evaluator.Coherence

/-!
# Cached units load from the cells of the evaluator

`Evaluator.sharesCells_of_cached`: whatever operations an evaluator has gone through, a unit in
its cache stands under its own key, is one of the present version, was compiled into the
backend of the cells that are installed, and loads from the very cells that are written and
read through the evaluator.
-/

namespace Dataflow

open Ir

namespace Evaluator

variable {e e' : Evaluator}

theorem currentGlobals_of_globals (he : e.Coherent) {globals : CompiledGlobals}
    (h : e.cache.globals = some globals) : e.currentGlobals = .ok globals := by
  unfold currentGlobals
  rw [globals?_version he, h]

theorem globals_of_currentGlobals (he : e.Coherent) {globals : CompiledGlobals}
    (h : e.currentGlobals = .ok globals) : e.cache.globals = some globals := by
  unfold currentGlobals at h
  rw [globals?_version he] at h
  cases hglobals : e.cache.globals with
  | none =>
      rw [hglobals] at h
      contradiction
  | some found =>
      rw [hglobals] at h
      cases h
      rfl

/-- Reading an input gives what its cell holds. -/
theorem readInput_eq_ok_iff {globals : CompiledGlobals} (h : e.currentGlobals = .ok globals)
    (port : PortRef) (value : Value) :
    e.readInput port = .ok value ↔ ∃ cell image, globals.layout.cell? port = some cell ∧
      (e.bank globals.bank).lookup cell.symbol = some image ∧
      Value.ofBytes? cell.dataType image = some value := by
  unfold readInput
  rw [h]
  simp only [bind, Except.bind]
  cases hcell : globals.layout.cell? port with
  | none => simp
  | some cell =>
      cases himage : (e.bank globals.bank).lookup cell.symbol with
      | none => simp [himage]
      | some image =>
          cases hvalue : Value.ofBytes? cell.dataType image with
          | none => simp [himage, hvalue]
          | some v => simp [himage, hvalue]

/-- A value of the right type reaches the cell of its input, and nothing else changes. -/
theorem writeInput_eq_ok (he : e.Coherent) {globals : CompiledGlobals}
    (h : e.currentGlobals = .ok globals) {port : PortRef} {cell : StorageCell}
    (hcell : globals.layout.cell? port = some cell) {value : Value}
    (hvalue : value.dataType = cell.dataType) :
    e.writeInput port value = (.ok (), e.putCell globals.bank cell.symbol value) ∧
      ((e.putCell globals.bank cell.symbol value).bank globals.bank).lookup cell.symbol =
        some value.toBytes := by
  refine ⟨?_, ?_⟩
  · unfold writeInput writeCell
    simp only [h, hcell, if_pos hvalue]
  · rw [bank_putCell, if_pos rfl]
    apply Bank.lookup_put_self
    rw [(he.banks globals (globals_of_currentGlobals he h)).2]
    exact List.mem_map_of_mem (StorageLayout.mem_of_cell? hcell).1

/-- The unit loads from the cells that are written and read through the evaluator. -/
structure SharesCells (e : Evaluator) (unit : CompiledUnit) (globals : CompiledGlobals) :
    Prop where
  loads : ∀ f ∈ unit.functions, ∀ global ∈ f.globals,
    ∃ port cell, globals.layout.cell? port = some cell ∧ global.symbol = cell.symbol
  reads : ∀ port value, e.readInput port = .ok value ↔
    ∃ cell image, globals.layout.cell? port = some cell ∧
      (e.bank unit.bank).lookup cell.symbol = some image ∧
      Value.ofBytes? cell.dataType image = some value
  writes : ∀ port cell, globals.layout.cell? port = some cell →
    ∀ value : Value, value.dataType = cell.dataType →
      ∃ e', e.writeInput port value = (.ok (), e') ∧ e'.cache = e.cache ∧
        (e'.bank unit.bank).lookup cell.symbol = some value.toBytes ∧
        e'.readInput port = .ok value

theorem sharesCells_of_compiledInto (he : e.Coherent) {unit : CompiledUnit}
    {globals : CompiledGlobals} (h : e.currentGlobals = .ok globals)
    (hunit : unit.CompiledInto globals) : e.SharesCells unit globals := by
  refine ⟨hunit.cells, ?_, ?_⟩
  · rw [hunit.bank]
    exact readInput_eq_ok_iff h
  · intro port cell hcell value hvalue
    obtain ⟨hwrite, hlookup⟩ := writeInput_eq_ok he h hcell hvalue
    refine ⟨_, hwrite, rfl, ?_, ?_⟩
    · rw [hunit.bank]
      exact hlookup
    · have hcurrent : (e.putCell globals.bank cell.symbol value).currentGlobals = .ok globals := h
      rw [readInput_eq_ok_iff hcurrent]
      refine ⟨cell, _, hcell, hlookup, ?_⟩
      rw [← hvalue]
      exact Value.ofBytes?_toBytes value

theorem sharesCells_of_cached (g : Graph) (options : Options) (commands : List Command)
    {key : CacheKey} {unit : CompiledUnit}
    (h : (key, unit) ∈ ((new g options).after commands).cache.units) :
    key = (unit.version, unit.request) ∧
      unit.version = ((new g options).after commands).version ∧
      ∃ globals, ((new g options).after commands).currentGlobals = .ok globals ∧
        globals.version = ((new g options).after commands).version ∧
        unit.CompiledInto globals ∧
        ((new g options).after commands).SharesCells unit globals := by
  have he := coherent_after g options commands
  obtain ⟨hkey, hversion, -, globals, hglobals, hinto⟩ := he.units _ h
  have hcurrent := currentGlobals_of_globals he hglobals
  exact ⟨hkey, hversion, globals, hcurrent, he.version globals hglobals, hinto,
    sharesCells_of_compiledInto he hcurrent hinto⟩

end Evaluator

/-! ## A lone sum -/

namespace LoneSum

def sum : Node :=
  ⟨"sum", .math .add .i32, [⟨"a", .i32, some (.i32 0)⟩, ⟨"b", .i32, some (.i32 0)⟩],
    [⟨"result", .i32, none⟩]⟩

/-- Both summands are authored as zero. -/
def graph : Graph := ⟨"lone sum", [sum], [], none⟩

def request : UnitRequest := ⟨[⟨"sum", "result"⟩], []⟩

def index : Index := Index.build graph.remember

def layout : StorageLayout := StorageLayout.build graph.remember index

def plan : UnitPlan where
  version := graph.remember.version
  outputs := [(⟨"sum", "result"⟩, .i32)]
  outputLayout := ⟨[⟨.i32, 0⟩], 4, 4⟩
  bindings := ⟨[]⟩
  inputLayout := ⟨[], 0, 1⟩
  order := [sum]

theorem order_eq : evaluationOrder graph.remember index [] ["sum"] = .ok [sum] := by
  have hedges : index.edges = [] := by decide +kernel
  have hnodes : index.nodes = ["sum"] := by decide +kernel
  have hnode : ∀ name, graph.remember.node? name = graph.node? name := fun _ => rfl
  simp only [evaluationOrder, scheduleRoots, Index.contains, hedges, Schedule.needs_nil, hnodes,
    hnode, ← Option.not_isSome]
  -- The digest of the graph stands in the messages only.
  generalize graph.remember.version = version
  cbv

theorem plan_made : UnitPlan.make graph.remember index layout request = .ok plan := by
  refine UnitPlan.make_of_parts rfl (by decide) ?_ (by decide) ?_ (by decide) order_eq
  · decide +kernel
  · decide +kernel

def bank : Bank := [("sum - a", [0, 0, 0, 0]), ("sum - b", [0, 0, 0, 0])]

def backend : Backend :=
  ⟨⟨[], [⟨"sum - a", .exported⟩, ⟨"sum - b", .exported⟩], [], ["sum - b", "sum - a"]⟩, true, 0⟩

theorem cells_compiled : (Backend.new {}).compileGlobals layout = (.ok bank, backend) := by
  decide +kernel

/-- What `sum.a` holds once 5 has been written to it. -/
def written : Bank := [("sum - a", [5, 0, 0, 0]), ("sum - b", [0, 0, 0, 0])]

theorem built : ∃ unit b, backend.build graph.remember index layout request = (.ok unit, b) ∧
    (CompiledUnit.ofGenerated unit 0).invoke bank [] = .ok [.i32 0] ∧
    (CompiledUnit.ofGenerated unit 1).invoke written [] = .ok [.i32 5] := by
  have hbuild : (backend.build graph.remember index layout request).1.map (fun unit =>
      ((CompiledUnit.ofGenerated unit 0).invoke bank [],
        (CompiledUnit.ofGenerated unit 1).invoke written [])) =
      .ok (.ok [.i32 0], .ok [.i32 5]) := by
    simp only [Backend.build, Backend.generate, generateUnit, plan_made]
    decide +kernel
  generalize backend.build graph.remember index layout request = outcome at hbuild ⊢
  cases outcome with
  | mk result b =>
      cases result with
      | error err => contradiction
      | ok unit =>
          obtain ⟨hbank, hwritten⟩ := Prod.mk.inj (Except.ok.inj hbuild)
          exact ⟨unit, b, rfl, hbank, hwritten⟩

theorem compiled : ∃ unit e, (Evaluator.new graph {}).compile request = (.ok unit, e) := by
  obtain ⟨unit, b, hbuild, -⟩ := built
  obtain ⟨e, hcompile, -⟩ := Evaluator.compile_of_uninstalled (Evaluator.coherent_new graph {}) rfl
    (by decide) (Evaluator.index_refresh_of_built rfl) cells_compiled hbuild
  exact ⟨_, e, hcompile⟩

/-- The unit is in the cache after a summand has been written. -/
theorem sharesCells_of_cached_loneSum : ∃ key unit,
    (key, unit) ∈ ((Evaluator.new graph {}).after
      [.compile request, .writeInput ⟨"sum", "a"⟩ (.i32 5)]).cache.units ∧
    key = (unit.version, unit.request) ∧
    unit.version = ((Evaluator.new graph {}).after
      [.compile request, .writeInput ⟨"sum", "a"⟩ (.i32 5)]).version ∧
    ∃ globals, ((Evaluator.new graph {}).after
        [.compile request, .writeInput ⟨"sum", "a"⟩ (.i32 5)]).currentGlobals = .ok globals ∧
      globals.version = ((Evaluator.new graph {}).after
        [.compile request, .writeInput ⟨"sum", "a"⟩ (.i32 5)]).version ∧
      unit.CompiledInto globals ∧
      ((Evaluator.new graph {}).after
        [.compile request, .writeInput ⟨"sum", "a"⟩ (.i32 5)]).SharesCells unit globals := by
  obtain ⟨unit, e, hcompile⟩ := compiled
  have hcompiles := Evaluator.compiles_compile (Evaluator.coherent_new graph {}) request
  rw [hcompile] at hcompiles
  have hmem : (((Evaluator.new graph {}).version, request), unit) ∈
      ((Evaluator.new graph {}).after
        [.compile request, .writeInput ⟨"sum", "a"⟩ (.i32 5)]).cache.units := by
    simp only [Evaluator.after, List.foldl, Evaluator.step, hcompile]
    rw [(Evaluator.keeps_writeInput _ _ _).units]
    exact hcompiles.unit unit rfl
  exact ⟨_, unit, hmem, Evaluator.sharesCells_of_cached graph {}
    [.compile request, .writeInput ⟨"sum", "a"⟩ (.i32 5)] hmem⟩

end LoneSum

end Dataflow
