import Dataflow.Proofs.Evaluator.Changes

/-!
# Compiled code stays coherent over whole runs

Every operation of an evaluator amounts to changes of its compiled code that keep it
coherent, also when the operation fails. So in every state that an evaluator can reach, the
units in its cache load from the cells that are written and read through it.
-/

namespace Dataflow

open Ir

namespace Evaluator

variable {e e' : Evaluator}

/-! ## Operations on cells -/

theorem version_of_token {g g' : Graph} (h : g'.token = g.token) (hg : g.token.isSome) :
    g'.version = g.version := by
  obtain ⟨token, htoken⟩ := Option.isSome_iff_exists.1 hg
  rw [htoken] at h
  unfold Graph.version
  rw [h, htoken, Option.getD_some, Option.getD_some]

theorem keeps_refresh (e : Evaluator) : e.Keeps e.refresh := by
  unfold refresh
  split
  · exact ⟨id, fun _ => rfl, rfl, rfl, rfl, fun _ => rfl⟩
  · exact .refl e

theorem bank_putCell (e : Evaluator) (k : Nat) (symbol : String) (value : Value) (j : Nat) :
    (e.putCell k symbol value).bank j =
      if k = j then (e.bank j).put symbol value.toBytes else e.bank j := by
  unfold putCell bank
  rw [List.getElem?_modify]
  by_cases hj : k = j
  · rw [if_pos hj]
    cases e.banks[j]? with
    | none => simp [hj, Bank.put]
    | some bank => simp [hj]
  · rw [if_neg hj]
    simp [hj]

theorem keeps_putCell (e : Evaluator) (k : Nat) (symbol : String) (value : Value) :
    e.Keeps (e.putCell k symbol value) := by
  refine ⟨id, fun _ => rfl, rfl, rfl, List.length_modify .., ?_⟩
  intro j
  rw [bank_putCell]
  split
  · exact Bank.keys_put _ _ _
  · rfl

theorem keeps_writeCell {globals : CompiledGlobals} {port : PortRef} {value : Value}
    (h : e.writeCell globals port value = .ok e') : e.Keeps e' := by
  unfold writeCell at h
  split at h
  · contradiction
  · split at h
    · cases h
      exact keeps_putCell _ _ _ _
    · contradiction

theorem keeps_syncCells (globals : CompiledGlobals) (g : Graph) (written : Nat)
    (cells : List StorageCell) (e : Evaluator) :
    e.Keeps (syncCells globals g written cells e).2 := by
  induction cells generalizing e written with
  | nil => exact .refl e
  | cons cell cells ih =>
      unfold syncCells
      split
      · exact .refl e
      · split
        · exact ih written e
        · split
          · exact .refl e
          · rename_i hwrite
            exact (keeps_writeCell hwrite).trans (ih _ _)

theorem keeps_syncFrom (e : Evaluator) (globals : CompiledGlobals) (g : Graph) :
    e.Keeps (e.syncFrom globals g).2 := by
  unfold syncFrom
  split
  · exact keeps_syncCells _ _ _ _ _
  · exact .refl e

theorem keeps_writeInput (e : Evaluator) (port : PortRef) (value : Value) :
    e.Keeps (e.writeInput port value).2 := by
  unfold writeInput
  split
  · exact .refl e
  · split
    · exact .refl e
    · rename_i hwrite
      exact keeps_writeCell hwrite

theorem token_setInputValue {g g' : Graph} {port : PortRef} {value : Value}
    (h : g.setInputValue port value = .ok g') : g'.token = g.token := by
  unfold Graph.setInputValue at h
  obtain ⟨p, -, h₁⟩ := bind_eq_ok h
  split at h₁
  · contradiction
  · cases h₁
    rfl

theorem keeps_setInput (e : Evaluator) (port : PortRef) (value : Value) :
    e.Keeps (e.setInput port value).2 := by
  have hwrite := keeps_writeInput e port value
  unfold setInput
  split
  · rename_i hrun
    rw [hrun] at hwrite
    exact hwrite
  · rename_i e₁ hrun
    rw [hrun] at hwrite
    split
    · exact hwrite
    · rename_i graph hset
      have htoken := token_setInputValue hset
      refine hwrite.trans ⟨?_, ?_, rfl, rfl, rfl, fun _ => rfl⟩
      · intro hremembered
        change graph.token.isSome
        rw [htoken]
        exact hremembered
      · exact version_of_token htoken

theorem keeps_syncInputs (e : Evaluator) : e.Keeps e.syncInputs.2 := by
  unfold syncInputs
  split
  · exact .refl e
  · exact keeps_syncFrom _ _ _

/-! ## Dropping what was compiled -/

/-- All units and the cells belong to the present version. -/
theorem Coherent.invalidate_version (he : e.Coherent) :
    (e.cache.invalidate e.version).2.globals = none ∧
      (e.cache.invalidate e.version).2.units = [] := by
  refine ⟨?_, ?_⟩
  · change e.cache.globals.filter _ = none
    rw [Option.filter_eq_none_iff]
    intro globals hglobals
    simp [he.version globals hglobals]
  · change e.cache.units.filter _ = []
    rw [List.filter_eq_nil_iff]
    intro entry hentry
    obtain ⟨hkey, hunit, -⟩ := he.units entry hentry
    simp [hkey, CompiledUnit.key, hunit]

theorem Coherent.invalidate_of_ne (he : e.Coherent) {version : Version}
    (h : version ≠ e.version) :
    (e.cache.invalidate version).2.globals = e.cache.globals ∧
      (e.cache.invalidate version).2.units = e.cache.units := by
  have hne : ∀ v, v = e.version → (v != version) = true := by
    rintro v rfl
    simpa using h.symm
  refine ⟨?_, ?_⟩
  · change e.cache.globals.filter _ = e.cache.globals
    cases hglobals : e.cache.globals with
    | none => rfl
    | some globals => exact Option.filter_some_pos (hne _ (he.version globals hglobals))
  · change e.cache.units.filter _ = e.cache.units
    rw [List.filter_eq_self]
    intro entry hentry
    obtain ⟨hkey, hunit, -⟩ := he.units entry hentry
    rw [hkey]
    exact hne _ hunit

theorem change_invalidate (he : e.Coherent) (version : Version) :
    e.Change (e.invalidate version).2 := by
  by_cases hversion : version = e.version
  · rw [hversion]
    obtain ⟨hglobals, hunits⟩ := he.invalidate_version
    exact .drop he.remembered hglobals hunits rfl
  · obtain ⟨hglobals, hunits⟩ := he.invalidate_of_ne hversion
    exact .keep ⟨id, fun _ => rfl, hglobals, hunits, rfl, fun _ => rfl⟩

theorem changes_markStale (he : e.Coherent) : e.Changes e.markStale := by
  refine .tail (.single (change_invalidate he e.version)) (.keep ?_)
  exact ⟨id, fun _ => rfl, rfl, rfl, rfl, fun _ => rfl⟩

theorem changes_replaceGraph (he : e.Coherent) (g : Graph) :
    e.Changes (e.replaceGraph g).2 := by
  unfold replaceGraph
  simp only
  split
  · -- What was compiled belongs to the old version, all of it.
    obtain ⟨hglobals, hunits⟩ := he.invalidate_version
    exact .single (.drop rfl hglobals hunits rfl)
  · rename_i hversion
    have htake : e.Keeps { e with graph := g.remember } :=
      ⟨fun _ => rfl, fun _ => not_not.1 hversion, rfl, rfl, rfl, fun _ => rfl⟩
    split
    · exact .single (.keep htake)
    · exact .single (.keep (htake.trans (keeps_syncFrom _ _ _)))

/-! ## Compiling -/

theorem globals?_version (he : e.Coherent) : e.cache.globals? e.version = e.cache.globals := by
  unfold Cache.globals?
  cases hglobals : e.cache.globals with
  | none => rfl
  | some globals =>
      have hversion := he.version globals hglobals
      exact Option.filter_some_pos (by simpa using hversion)

theorem version_refresh (e : Evaluator) : e.refresh.version = e.version := by
  unfold refresh
  split <;> rfl

theorem graph_refresh (e : Evaluator) : e.refresh.graph = e.graph := by
  unfold refresh
  split <;> rfl

theorem index_refresh_of_built (h : e.index = Index.build e.graph) :
    e.refresh.index = Index.build e.graph := by
  unfold refresh
  split
  · rfl
  · exact h

theorem version_index_refresh (e : Evaluator) : e.refresh.index.version = e.version := by
  unfold refresh
  split
  · rfl
  · rename_i hfresh
    simp only [Bool.or_eq_true, bne_iff_ne, not_or, not_not] at hfresh
    exact hfresh.2

/-- The cells are compiled afterwards, for the present version, unless that fails. -/
theorem changes_ensureGlobals (he : e.Coherent) :
    e.Changes e.ensureGlobals.2 ∧ e.ensureGlobals.2.graph = e.graph ∧
      e.ensureGlobals.2.cache.units = e.cache.units ∧
      ∀ globals, e.ensureGlobals.1 = .ok globals →
        e.ensureGlobals.2.cache.globals = some globals := by
  have hrefresh := keeps_refresh e
  have hcoherent := hrefresh.coherent he
  have hgraph := graph_refresh e
  have hunits := hrefresh.units
  unfold ensureGlobals
  simp only [globals?_version hcoherent]
  cases hglobals : e.refresh.cache.globals with
  | some globals =>
      refine ⟨.single (.keep hrefresh), hgraph, hunits, ?_⟩
      intro found hfound
      cases hfound
      exact hglobals
  | none =>
      simp only
      split
      · refine ⟨.single (.keep hrefresh), hgraph, hunits, ?_⟩
        intro found hfound
        contradiction
      · rename_i bank backend hcompile
        have hbank := Backend.bank_of_compileGlobals hcompile
        have hversion : (StorageLayout.build e.refresh.graph e.refresh.index).version =
            e.refresh.version := by
          rw [version_refresh]
          exact version_index_refresh e
        refine ⟨.tail (.single (.keep hrefresh)) ?_, hgraph, hunits, ?_⟩
        · rw [hbank]
          exact .install ⟨StorageLayout.build e.refresh.graph e.refresh.index, backend,
            e.refresh.banks.length⟩ hglobals hversion rfl
        · intro found hfound
          cases hfound
          rfl

/-- What compiling a request comes to: a graph left alone and, if it succeeds, a unit in the
cache. -/
structure Compiles (e : Evaluator) (r : UnitRequest)
    (outcome : Except UnitError CompiledUnit × Evaluator) : Prop where
  changes : e.Changes outcome.2
  graph : outcome.2.graph = e.graph
  unit : ∀ unit, outcome.1 = .ok unit → ((e.version, r), unit) ∈ outcome.2.cache.units

theorem compiles_compileNew (he : e.Coherent) {r : UnitRequest} (houtputs : r.outputs ≠ [])
    (hmissing : e.cache.find? e.version r = none) : e.Compiles r (e.compileNew r) := by
  obtain ⟨hchanges, hgraph, hunits, hfound⟩ := changes_ensureGlobals he
  unfold compileNew
  cases hensure : e.ensureGlobals with
  | mk result e₁ =>
      rw [hensure] at hchanges hgraph hunits hfound
      have hversion : e₁.version = e.version := by
        unfold version
        rw [hgraph]
      cases result with
      | error err => exact ⟨hchanges, hgraph, fun _ h => by contradiction⟩
      | ok globals =>
          have hglobals : e₁.cache.globals = some globals := hfound globals rfl
          simp only
          cases hbuild : globals.backend.build e₁.graph e₁.index globals.layout r with
          | mk result backend =>
              have hgrowth : globals.backend.table.Extends backend.table := by
                have hextends := globals.backend.extends_build e₁.graph e₁.index globals.layout r
                rw [hbuild] at hextends
                exact hextends
              have hgrown := Relation.ReflTransGen.tail hchanges
                (.grow globals backend hglobals hgrowth)
              cases result with
              | error err => exact ⟨hgrown, hgraph, fun _ h => by contradiction⟩
              | ok generated =>
                  obtain ⟨hcurrent, hrequest, hinstalled, hcells⟩ := Backend.unit_of_build hbuild
                  have hset : (e₁.cache.setBackend backend).globals =
                      some { globals with backend } := by
                    unfold Cache.setBackend
                    rw [hglobals]
                    rfl
                  have hnone : (e₁.cache.setBackend backend).find? e₁.version
                      generated.request = none := by
                    unfold Cache.find?
                    change e₁.cache.units.lookup _ = none
                    rw [hunits, hversion, hrequest]
                    exact hmissing
                  have houtputs' : generated.request.outputs ≠ [] := by
                    rw [hrequest]
                    exact houtputs
                  have hinsert : Change { e₁ with cache := e₁.cache.setBackend backend } _ :=
                    .insert { globals with backend }
                      (CompiledUnit.ofGenerated generated globals.bank) hset
                      ⟨rfl, hinstalled, hcells⟩ hcurrent houtputs' hnone
                  refine ⟨hgrown.tail hinsert, hgraph, ?_⟩
                  intro unit hunit
                  cases hunit
                  have hkey : (CompiledUnit.ofGenerated generated globals.bank).key =
                      (e.version, r) := by
                    rw [← hversion, ← hrequest]
                    exact congrArg (·, generated.request) hcurrent
                  rw [← hkey]
                  exact List.mem_cons_self

theorem cache_refresh (e : Evaluator) : e.refresh.cache = e.cache := by
  unfold refresh
  split <;> rfl

theorem options_refresh (e : Evaluator) : e.refresh.options = e.options := by
  unfold refresh
  split <;> rfl

theorem banks_refresh (e : Evaluator) : e.refresh.banks = e.banks := by
  unfold refresh
  split <;> rfl

/-- The evaluator with its index at hand and other counts of look-ups. -/
def counted (e : Evaluator) (stats : CacheStats) : Evaluator :=
  { e.refresh with cache := { e.cache with stats } }

theorem counted_index (e : Evaluator) (stats : CacheStats) :
    (e.counted stats).index = e.refresh.index := rfl

theorem counted_graph (e : Evaluator) (stats : CacheStats) :
    (e.counted stats).graph = e.graph := graph_refresh e

theorem counted_options (e : Evaluator) (stats : CacheStats) :
    (e.counted stats).options = e.options := by
  unfold counted refresh
  split <;> rfl

theorem counted_banks (e : Evaluator) (stats : CacheStats) :
    (e.counted stats).banks = e.banks := by
  unfold counted refresh
  split <;> rfl

theorem keeps_counted (e : Evaluator) (stats : CacheStats) : e.Keeps (e.counted stats) := by
  unfold counted refresh
  split <;> exact ⟨id, fun _ => rfl, rfl, rfl, rfl, fun _ => rfl⟩

theorem stale_refresh (e : Evaluator) : e.refresh.stale = false := by
  unfold refresh
  split
  · rfl
  · rename_i hfresh
    simp only [Bool.or_eq_true, not_or, Bool.not_eq_true] at hfresh
    exact hfresh.1

theorem refresh_counted (e : Evaluator) (stats : CacheStats) :
    (e.counted stats).refresh = e.counted stats := by
  have hstale : (e.counted stats).stale = false := stale_refresh e
  have hversion : (e.counted stats).index.version = (e.counted stats).version :=
    (version_index_refresh e).trans (version_refresh e).symm
  unfold refresh
  rw [if_neg (by simp [hstale, hversion])]

theorem compile_of_hit {r : UnitRequest} (houtputs : r.outputs ≠ []) {unit : CompiledUnit}
    (h : e.cache.find? e.version r = some unit) :
    e.compile r =
      (.ok unit, e.counted { e.cache.stats with hits := e.cache.stats.hits + 1 }) := by
  have hnonempty : ¬ r.outputs.isEmpty = true := by simpa using houtputs
  unfold compile
  simp only [if_neg hnonempty, Cache.get, cache_refresh, version_refresh, h]
  rfl

theorem compile_of_miss {r : UnitRequest} (houtputs : r.outputs ≠ [])
    (h : e.cache.find? e.version r = none) :
    e.compile r =
      (e.counted { e.cache.stats with misses := e.cache.stats.misses + 1 }).compileNew r := by
  have hnonempty : ¬ r.outputs.isEmpty = true := by simpa using houtputs
  unfold compile
  simp only [if_neg hnonempty, Cache.get, cache_refresh, version_refresh, h]
  rfl

/-- A request whose unit is in the cache is answered with it. -/
theorem compile_of_cached {r : UnitRequest} (houtputs : r.outputs ≠ []) {unit : CompiledUnit}
    (h : e.cache.find? e.version r = some unit) :
    ∃ stats, e.compile r = (.ok unit, e.counted stats) :=
  ⟨_, compile_of_hit houtputs h⟩

/-- Any other request is compiled. -/
theorem compile_of_missing {r : UnitRequest} (houtputs : r.outputs ≠ [])
    (h : e.cache.find? e.version r = none) :
    ∃ stats, e.compile r = (e.counted stats).compileNew r :=
  ⟨_, compile_of_miss houtputs h⟩

/-- Where no cells are compiled, they go to a new bank. -/
theorem ensureGlobals_of_uninstalled (hnone : e.cache.globals = none) {ix : Index}
    (hindex : e.refresh.index = ix) {bank : Bank} {b : Backend}
    (hglobals : (Backend.new e.options).compileGlobals (StorageLayout.build e.graph ix) =
      (.ok bank, b)) :
    ∃ e₁, e.ensureGlobals = (.ok ⟨StorageLayout.build e.graph ix, b, e.banks.length⟩, e₁) ∧
      e₁.graph = e.graph ∧ e₁.index = ix ∧ e₁.options = e.options ∧
      e₁.banks = e.banks ++ [bank] := by
  have hnone' : e.cache.globals? e.version = none := by
    unfold Cache.globals?
    rw [hnone]
    rfl
  unfold ensureGlobals
  simp only [cache_refresh, version_refresh, hnone', graph_refresh, options_refresh,
    banks_refresh, hindex, hglobals]
  exact ⟨_, rfl, rfl, rfl, rfl, rfl⟩

/-- Once the cells are there, the unit is built by their backend. -/
theorem compileNew_of_ensured {r : UnitRequest} {globals : CompiledGlobals} {e₁ : Evaluator}
    (hensure : e.ensureGlobals = (.ok globals, e₁)) {generated : GeneratedUnit} {b : Backend}
    (hbuild : globals.backend.build e₁.graph e₁.index globals.layout r = (.ok generated, b)) :
    ∃ e₂, e.compileNew r = (.ok (.ofGenerated generated globals.bank), e₂) ∧
      e₂.graph = e₁.graph ∧ e₂.options = e₁.options ∧ e₂.banks = e₁.banks := by
  unfold compileNew
  simp only [hensure, hbuild]
  exact ⟨_, rfl, rfl, rfl, rfl⟩

/-- Where nothing is compiled, the unit loads from a new bank. -/
theorem compile_of_uninstalled (he : e.Coherent) (hnone : e.cache.globals = none)
    {r : UnitRequest} (houtputs : r.outputs ≠ []) {ix : Index} (hindex : e.refresh.index = ix)
    {bank : Bank} {b b' : Backend}
    (hglobals : (Backend.new e.options).compileGlobals (StorageLayout.build e.graph ix) =
      (.ok bank, b))
    {generated : GeneratedUnit}
    (hbuild : b.build e.graph ix (StorageLayout.build e.graph ix) r = (.ok generated, b')) :
    ∃ e₁, e.compile r = (.ok (.ofGenerated generated e.banks.length), e₁) ∧
      e₁.graph = e.graph ∧ e₁.options = e.options ∧ e₁.banks = e.banks ++ [bank] := by
  have hmissing : e.cache.find? e.version r = none := by
    unfold Cache.find?
    rw [he.units_eq_nil hnone]
    rfl
  obtain ⟨stats, hcompile⟩ := compile_of_missing houtputs hmissing
  rw [← counted_options e stats, ← counted_graph e stats] at hglobals
  have hindex' : (e.counted stats).refresh.index = ix := by
    rw [refresh_counted]
    exact hindex
  obtain ⟨e₁, hensure, hgraph₁, hindex₁, hoptions₁, hbanks₁⟩ :=
    ensureGlobals_of_uninstalled (show (e.counted stats).cache.globals = none from hnone)
      hindex' hglobals
  rw [counted_graph] at hensure hgraph₁
  rw [counted_banks] at hensure hbanks₁
  rw [counted_options] at hoptions₁
  have hbuild' : b.build e₁.graph e₁.index (StorageLayout.build e.graph ix) r =
      (.ok generated, b') := by
    rw [hgraph₁, hindex₁]
    exact hbuild
  obtain ⟨e₂, hnew, hgraph₂, hoptions₂, hbanks₂⟩ := compileNew_of_ensured hensure hbuild'
  exact ⟨e₂, hcompile.trans hnew, hgraph₂.trans hgraph₁, hoptions₂.trans hoptions₁,
    hbanks₂.trans hbanks₁⟩

/-- Where the cells are compiled, the unit loads from their bank. -/
theorem compile_of_installed (he : e.Coherent) {globals : CompiledGlobals}
    (hglobals : e.cache.globals = some globals) {r : UnitRequest} (houtputs : r.outputs ≠ [])
    (hmissing : e.cache.find? e.version r = none) {ix : Index} (hindex : e.refresh.index = ix)
    {generated : GeneratedUnit} {b : Backend}
    (hbuild : globals.backend.build e.graph ix globals.layout r = (.ok generated, b)) :
    ∃ e₁, e.compile r = (.ok (.ofGenerated generated globals.bank), e₁) ∧
      e₁.graph = e.graph ∧ e₁.banks = e.banks := by
  obtain ⟨stats, hcompile⟩ := compile_of_missing houtputs hmissing
  have hfound : (e.counted stats).cache.globals? (e.counted stats).version = some globals := by
    rw [globals?_version ((keeps_counted e stats).coherent he)]
    exact hglobals
  have hensure : (e.counted stats).ensureGlobals = (.ok globals, e.counted stats) := by
    unfold ensureGlobals
    simp only [refresh_counted, hfound]
  have hbuild' : globals.backend.build (e.counted stats).graph (e.counted stats).index
      globals.layout r = (.ok generated, b) := by
    rw [counted_graph, counted_index, hindex]
    exact hbuild
  obtain ⟨e₂, hnew, hgraph₂, -, hbanks₂⟩ := compileNew_of_ensured hensure hbuild'
  exact ⟨e₂, hcompile.trans hnew, hgraph₂.trans (counted_graph e stats),
    hbanks₂.trans (counted_banks e stats)⟩

theorem compile_of_empty {r : UnitRequest} (h : r.outputs = []) :
    e.compile r = (.error .emptyRequest, e) := by
  unfold compile
  rw [if_pos (by simp [h])]

theorem compiles_compile (he : e.Coherent) (r : UnitRequest) : e.Compiles r (e.compile r) := by
  by_cases hempty : r.outputs = []
  · rw [compile_of_empty hempty]
    exact ⟨.refl, rfl, fun _ h => by contradiction⟩
  · cases hfind : e.cache.find? e.version r with
    | some unit =>
        obtain ⟨stats, hcompile⟩ := compile_of_cached hempty hfind
        rw [hcompile]
        refine ⟨.single (.keep (keeps_counted e stats)), graph_refresh e, ?_⟩
        intro found hfound
        cases hfound
        exact mem_of_find? hfind
    | none =>
        obtain ⟨stats, hcompile⟩ := compile_of_missing hempty hfind
        have hkeeps := keeps_counted e stats
        have hversion : (e.counted stats).version = e.version := version_refresh e
        rw [← hversion] at hfind
        obtain ⟨hchanges, hgraph, hunit⟩ := compiles_compileNew (hkeeps.coherent he) hempty hfind
        rw [hversion] at hunit
        rw [hcompile]
        exact ⟨.head (.keep hkeeps) hchanges, hgraph.trans (graph_refresh e), hunit⟩

/-! ## Runs -/

/-- The operations of an evaluator. -/
inductive Command
  | replaceGraph (g : Graph)
  | markStale
  | invalidate (version : Version)
  | index
  | ensureGlobals
  | compile (r : UnitRequest)
  | code (r : UnitRequest)
  | writeInput (port : PortRef) (value : Value)
  | setInput (port : PortRef) (value : Value)
  | readInput (port : PortRef)
  | syncInputs
  | invoke (unit : CompiledUnit) (values : List Value)
  | evaluate (outputs : List PortRef)
  | evaluateWith (inputs : List PortRef) (values : List Value) (outputs : List PortRef)

/-- The evaluator after an operation, whether it has succeeded or failed. -/
def step (e : Evaluator) : Command → Evaluator
  | .replaceGraph g => (e.replaceGraph g).2
  | .markStale => e.markStale
  | .invalidate version => (e.invalidate version).2
  | .index => e.refresh
  | .ensureGlobals => e.ensureGlobals.2
  | .compile r => (e.compile r).2
  | .code r => (e.code r).2
  | .writeInput port value => (e.writeInput port value).2
  | .setInput port value => (e.setInput port value).2
  | .readInput _ => e
  | .syncInputs => e.syncInputs.2
  | .invoke _ _ => e
  | .evaluate outputs => (e.evaluate outputs).2
  | .evaluateWith inputs values outputs => (e.evaluateWith inputs values outputs).2

/-- The evaluator after a sequence of operations. -/
def after (e : Evaluator) (commands : List Command) : Evaluator := commands.foldl step e

theorem after_snoc (e : Evaluator) (commands : List Command) (command : Command) :
    e.after (commands ++ [command]) = (e.after commands).step command :=
  List.foldl_concat ..

theorem snd_evaluateRequest (e : Evaluator) (r : UnitRequest) (values : List Value) :
    (e.evaluateRequest r values).2 = (e.compile r).2 := by
  unfold evaluateRequest
  split
  · rename_i hcompile
    rw [hcompile]
  · rename_i hcompile
    rw [hcompile]

theorem changes_step (he : e.Coherent) (command : Command) : e.Changes (e.step command) := by
  have hcompile := fun r => (compiles_compile he r).changes
  cases command with
  | replaceGraph g => exact changes_replaceGraph he g
  | markStale => exact changes_markStale he
  | invalidate version => exact .single (change_invalidate he version)
  | index => exact .single (.keep (keeps_refresh e))
  | ensureGlobals => exact (changes_ensureGlobals he).1
  | compile r => exact hcompile r
  | code r => exact .single (.keep (keeps_refresh e))
  | writeInput port value => exact .single (.keep (keeps_writeInput e port value))
  | setInput port value => exact .single (.keep (keeps_setInput e port value))
  | readInput port => exact .refl
  | syncInputs => exact .single (.keep (keeps_syncInputs e))
  | invoke unit values => exact .refl
  | evaluate outputs =>
      rw [step, evaluate, snd_evaluateRequest]
      exact hcompile _
  | evaluateWith inputs values outputs =>
      rw [step, evaluateWith, snd_evaluateRequest]
      exact hcompile _

theorem changes_after (he : e.Coherent) (commands : List Command) :
    e.Changes (e.after commands) := by
  induction commands generalizing e with
  | nil => exact .refl
  | cons command commands ih =>
      have hstep := changes_step he command
      exact hstep.trans (ih (Changes.coherent hstep he))

theorem coherent_new (g : Graph) (options : Options) : (new g options).Coherent :=
  coherent_of_empty rfl rfl rfl

/-- Every state that an evaluator can reach is coherent. -/
theorem coherent_after (g : Graph) (options : Options) (commands : List Command) :
    ((new g options).after commands).Coherent :=
  Changes.coherent (changes_after (coherent_new g options) commands) (coherent_new g options)

end Evaluator

end Dataflow
