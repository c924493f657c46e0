import Dataflow.Proofs.Backend.Independence
import Dataflow.Proofs.Evaluator.Coherence

/-!
# What compiling comes to

The cells of a graph can always be compiled, so a request ends in one of four ways:
`Evaluator.Asks` lists them, each with the evaluator that it leaves behind. It is refused for
naming no outputs, it finds its unit in the cache, or it is built by the backend of the cells,
with or without success.
-/

namespace Dataflow

open Ir

/-- The cells laid out for a graph can be compiled by every new backend. -/
theorem Backend.exists_compileGlobals (options : Options) (g : Graph) (ix : Index) :
    ∃ b, (Backend.new options).compileGlobals (StorageLayout.build g ix) =
      (.ok (initialBank (StorageLayout.build g ix).cells), b) := by
  have hnew : ∀ cell ∈ (StorageLayout.build g ix).cells,
      cell.symbol ∉ (Backend.new options).table.cellNames ∧
        cell.symbol ∉ (Backend.new options).table.definedCells :=
    fun _ _ => ⟨List.not_mem_nil, List.not_mem_nil⟩
  obtain ⟨bank, t, hdefine, -, -⟩ := defineCells_of_nodup (t := (Backend.new options).table) rfl
    (StorageLayout.nodup_symbols g ix) hnew
  have hbank := bank_of_defineCells hdefine
  refine ⟨{ Backend.new options with table := t }, ?_⟩
  unfold compileGlobals
  rw [hdefine, hbank]

namespace CacheStats

def countHit (s : CacheStats) : CacheStats := { s with hits := s.hits + 1 }

def countMiss (s : CacheStats) : CacheStats := { s with misses := s.misses + 1 }

def countGlobals (s : CacheStats) : CacheStats :=
  { s with globalsCompilations := s.globalsCompilations + 1 }

end CacheStats

namespace Evaluator

variable {e e' : Evaluator} {globals : CompiledGlobals} {r : UnitRequest}
  {unit : CompiledUnit}

/-- The cells that the graph has now. -/
def freshLayout (e : Evaluator) : StorageLayout := StorageLayout.build e.graph e.refresh.index

/-- The cells are compiled afterwards: as they were, or laid out for the present graph in a bank
of their own. -/
structure Ensured (e : Evaluator) (globals : CompiledGlobals) (e' : Evaluator) : Prop where
  graph : e'.graph = e.graph
  index : e'.index = e.refresh.index
  installed : e'.cache.globals = some globals
  units : e'.cache.units = e.cache.units
  kept : ∀ before, e.cache.globals = some before →
    globals = before ∧ e'.banks = e.banks ∧ e'.cache.stats = e.cache.stats
  fresh : e.cache.globals = none → globals.layout = e.freshLayout ∧
    globals.bank = e.banks.length ∧
    e'.banks = e.banks ++ [Backend.initialBank e.freshLayout.cells] ∧
    e'.cache.stats = e.cache.stats.countGlobals

theorem exists_ensured (he : e.Coherent) :
    ∃ globals e', e.ensureGlobals = (.ok globals, e') ∧ e.Ensured globals e' := by
  unfold ensureGlobals
  simp only [version_refresh, cache_refresh, globals?_version he]
  cases hglobals : e.cache.globals with
  | some globals =>
      refine ⟨globals, e.refresh, rfl, graph_refresh e, rfl, ?_, ?_, ?_, ?_⟩
      · rw [cache_refresh, hglobals]
      · rw [cache_refresh]
      · intro before hbefore
        rw [hglobals] at hbefore
        cases hbefore
        exact ⟨rfl, banks_refresh e, by rw [cache_refresh]⟩
      · intro hnone
        rw [hglobals] at hnone
        contradiction
  | none =>
      obtain ⟨b, hcompile⟩ := Backend.exists_compileGlobals e.refresh.options e.refresh.graph
        e.refresh.index
      simp only [hcompile]
      refine ⟨_, _, rfl, graph_refresh e, rfl, rfl, rfl, ?_, ?_⟩
      · intro before hbefore
        rw [hglobals] at hbefore
        contradiction
      · intro _
        rw [freshLayout, graph_refresh, banks_refresh]
        exact ⟨rfl, rfl, rfl, rfl⟩

/-- The backend of the cells may grow by what is compiled next. -/
theorem Ensured.grown (hensured : e.Ensured globals e') (backend : Backend) :
    (e'.cache.setBackend backend).globals = some { globals with backend } := by
  unfold Cache.setBackend
  rw [hensured.installed]
  rfl

/-- The ways in which a request can end. -/
inductive Asks (e : Evaluator) (r : UnitRequest) :
    Except UnitError CompiledUnit → Evaluator → Prop
  | refused (empty : r.outputs = []) : Asks e r (.error .emptyRequest) e
  | found {unit : CompiledUnit} (outputs : r.outputs ≠ [])
      (hit : e.cache.find? e.version r = some unit) :
      Asks e r (.ok unit) (e.counted e.cache.stats.countHit)
  | failed {globals : CompiledGlobals} {e₁ : Evaluator} {err : UnitError} {backend : Backend}
      (outputs : r.outputs ≠ []) (miss : e.cache.find? e.version r = none)
      (ensured : (e.counted e.cache.stats.countMiss).Ensured globals e₁)
      (build : globals.backend.build e₁.graph e₁.index globals.layout r =
        (.error err, backend)) :
      Asks e r (.error err) { e₁ with cache := e₁.cache.setBackend backend }
  | built {globals : CompiledGlobals} {e₁ : Evaluator} {generated : GeneratedUnit}
      {backend : Backend} (outputs : r.outputs ≠ []) (miss : e.cache.find? e.version r = none)
      (ensured : (e.counted e.cache.stats.countMiss).Ensured globals e₁)
      (build : globals.backend.build e₁.graph e₁.index globals.layout r =
        (.ok generated, backend)) :
      Asks e r (.ok (.ofGenerated generated globals.bank)) { e₁ with
        cache := (e₁.cache.setBackend backend).insert (.ofGenerated generated globals.bank) }

theorem asks_compile (he : e.Coherent) (r : UnitRequest) :
    e.Asks r (e.compile r).1 (e.compile r).2 := by
  by_cases hempty : r.outputs = []
  · rw [compile_of_empty hempty]
    exact .refused hempty
  · cases hfind : e.cache.find? e.version r with
    | some unit =>
        rw [compile_of_hit hempty hfind]
        exact .found hempty hfind
    | none =>
        have hcounted := (keeps_counted e e.cache.stats.countMiss).coherent he
        obtain ⟨globals, e₁, hensure, hensured⟩ := exists_ensured hcounted
        rw [compile_of_miss hempty hfind]
        unfold compileNew
        change (e.counted e.cache.stats.countMiss).ensureGlobals = _ at hensure
        simp only [CacheStats.countMiss] at hensure
        simp only [hensure]
        cases hbuild : globals.backend.build e₁.graph e₁.index globals.layout r with
        | mk result backend =>
            cases result with
            | error err => exact .failed hempty hfind hensured hbuild
            | ok generated => exact .built hempty hfind hensured hbuild

end Evaluator

end Dataflow
