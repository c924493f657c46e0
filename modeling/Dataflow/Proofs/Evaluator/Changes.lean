import Dataflow.Evaluator
import Dataflow.Proofs.Backend.Growth
import Mathlib.Logic.Relation

/-!
# What happens to compiled code

`Evaluator.Change` lists all that an operation can do to the compiled cells and units of an
evaluator: leave them, drop all of them, compile the cells to a new bank, let the backend
grow, or add one unit. Each change keeps `Evaluator.Coherent`.
-/

namespace Dataflow

open Ir

/-- The unit was compiled into the backend of these cells and loads from no others. -/
structure CompiledUnit.CompiledInto (u : CompiledUnit) (globals : CompiledGlobals) : Prop where
  bank : u.bank = globals.bank
  installed : InstalledIn u.functions globals.backend.table
  cells : ∀ f ∈ u.functions, ∀ global ∈ f.globals,
    ∃ port cell, globals.layout.cell? port = some cell ∧ global.symbol = cell.symbol

theorem CompiledUnit.CompiledInto.mono {u : CompiledUnit} {globals : CompiledGlobals}
    (h : u.CompiledInto globals) {backend : Backend}
    (hext : globals.backend.table.Extends backend.table) :
    u.CompiledInto { globals with backend } :=
  ⟨h.bank, h.installed.mono hext, h.cells⟩

namespace Evaluator

/-- What is compiled fits together and belongs to the present version. -/
structure Coherent (e : Evaluator) : Prop where
  remembered : e.graph.token.isSome
  version : ∀ globals, e.cache.globals = some globals → globals.version = e.version
  banks : ∀ globals, e.cache.globals = some globals →
    globals.bank < e.banks.length ∧
      (e.bank globals.bank).map Prod.fst = globals.layout.cells.map StorageCell.symbol
  units : ∀ entry ∈ e.cache.units, entry.1 = entry.2.key ∧ entry.2.version = e.version ∧
    entry.2.request.outputs ≠ [] ∧
    ∃ globals, e.cache.globals = some globals ∧ entry.2.CompiledInto globals
  keys : (e.cache.units.map Prod.fst).Nodup

/-- Compiled cells and units stay; at most the contents of cells change. -/
structure Keeps (e e' : Evaluator) : Prop where
  remembered : e.graph.token.isSome → e'.graph.token.isSome
  version : e.graph.token.isSome → e'.version = e.version
  globals : e'.cache.globals = e.cache.globals
  units : e'.cache.units = e.cache.units
  length : e'.banks.length = e.banks.length
  keys : ∀ k, (e'.bank k).map Prod.fst = (e.bank k).map Prod.fst

/-- What an operation can do to compiled code. -/
inductive Change (e : Evaluator) : Evaluator → Prop
  | keep {e' : Evaluator} (h : e.Keeps e') : Change e e'
  | drop {e' : Evaluator} (remembered : e'.graph.token.isSome)
      (globals : e'.cache.globals = none) (units : e'.cache.units = [])
      (banks : e'.banks = e.banks) : Change e e'
  | install (globals : CompiledGlobals) (missing : e.cache.globals = none)
      (version : globals.version = e.version) (bank : globals.bank = e.banks.length) :
      Change e { e with
        cache := e.cache.setGlobals globals
        banks := e.banks ++ [Backend.initialBank globals.layout.cells] }
  | grow (globals : CompiledGlobals) (backend : Backend)
      (installed : e.cache.globals = some globals)
      (growth : globals.backend.table.Extends backend.table) :
      Change e { e with cache := e.cache.setBackend backend }
  | insert (globals : CompiledGlobals) (unit : CompiledUnit)
      (installed : e.cache.globals = some globals) (into : unit.CompiledInto globals)
      (version : unit.version = e.version) (outputs : unit.request.outputs ≠ [])
      (missing : e.cache.find? e.version unit.request = none) :
      Change e { e with cache := e.cache.insert unit }

/-- Any number of changes, one after the other. -/
abbrev Changes : Evaluator → Evaluator → Prop := Relation.ReflTransGen Change

variable {e e' : Evaluator}

theorem Keeps.refl (e : Evaluator) : e.Keeps e :=
  ⟨id, fun _ => rfl, rfl, rfl, rfl, fun _ => rfl⟩

theorem Keeps.trans {e₁ e₂ e₃ : Evaluator} (h : e₁.Keeps e₂) (h' : e₂.Keeps e₃) : e₁.Keeps e₃ where
  remembered := fun ht => h'.remembered (h.remembered ht)
  version := fun ht => (h'.version (h.remembered ht)).trans (h.version ht)
  globals := h'.globals.trans h.globals
  units := h'.units.trans h.units
  length := h'.length.trans h.length
  keys := fun k => (h'.keys k).trans (h.keys k)

/-! ## Coherence is kept -/

theorem Keeps.coherent (h : e.Keeps e') (he : e.Coherent) : e'.Coherent where
  remembered := h.remembered he.remembered
  version := by
    intro globals hglobals
    rw [h.globals] at hglobals
    rw [h.version he.remembered]
    exact he.version globals hglobals
  banks := by
    intro globals hglobals
    rw [h.globals] at hglobals
    rw [h.length, h.keys]
    exact he.banks globals hglobals
  units := by
    intro entry hentry
    rw [h.units] at hentry
    rw [h.version he.remembered, h.globals]
    exact he.units entry hentry
  keys := by
    rw [h.units]
    exact he.keys

theorem coherent_of_empty (hremembered : e.graph.token.isSome)
    (hglobals : e.cache.globals = none) (hunits : e.cache.units = []) : e.Coherent := by
  refine ⟨hremembered, ?_, ?_, ?_, ?_⟩
  · intro globals h
    rw [hglobals] at h
    contradiction
  · intro globals h
    rw [hglobals] at h
    contradiction
  · intro entry h
    rw [hunits] at h
    contradiction
  · rw [hunits]
    exact List.nodup_nil

/-- Without compiled cells there are no units. -/
theorem Coherent.units_eq_nil (he : e.Coherent) (h : e.cache.globals = none) :
    e.cache.units = [] := by
  apply List.eq_nil_iff_forall_not_mem.2
  intro entry hentry
  obtain ⟨-, -, -, globals, hglobals, -⟩ := he.units entry hentry
  rw [h] at hglobals
  contradiction

/-- The unit in the cache is the one found under its key. -/
theorem Coherent.find?_of_mem (he : e.Coherent) {entry : CacheKey × CompiledUnit}
    (h : entry ∈ e.cache.units) : e.cache.find? entry.2.version entry.2.request = some entry.2 := by
  have hkey : entry.1 = (entry.2.version, entry.2.request) := (he.units entry h).1
  have hnodup := he.keys
  unfold Cache.find?
  rw [← hkey]
  generalize e.cache.units = units at h hnodup
  induction units with
  | nil => contradiction
  | cons first units ih =>
      rw [List.map_cons, List.nodup_cons] at hnodup
      rcases List.mem_cons.1 h with rfl | h
      · exact List.lookup_cons_self
      · have hne : (entry.1 == first.1) = false := by
          simp only [beq_eq_false_iff_ne]
          intro heq
          exact hnodup.1 (heq ▸ List.mem_map_of_mem h)
        rw [List.lookup_cons, hne]
        exact ih h hnodup.2

theorem mem_of_find? {version : Version} {r : UnitRequest} {unit : CompiledUnit}
    (h : e.cache.find? version r = some unit) : ((version, r), unit) ∈ e.cache.units := by
  obtain ⟨before, after, hunits, -⟩ := List.lookup_eq_some_iff.1 h
  rw [hunits]
  exact List.mem_append_right _ List.mem_cons_self

theorem coherent_install (he : e.Coherent) {globals : CompiledGlobals}
    (hmissing : e.cache.globals = none) (hversion : globals.version = e.version)
    (hbank : globals.bank = e.banks.length) :
    Coherent { e with
      cache := e.cache.setGlobals globals
      banks := e.banks ++ [Backend.initialBank globals.layout.cells] } := by
  have hunits : e.cache.units = [] := he.units_eq_nil hmissing
  refine ⟨he.remembered, ?_, ?_, ?_, ?_⟩
  · intro installed hinstalled
    cases hinstalled
    exact hversion
  · intro installed hinstalled
    cases hinstalled
    refine ⟨?_, ?_⟩
    · rw [hbank, List.length_append]
      exact Nat.lt_succ_self _
    · rw [hbank, bank, List.getElem?_concat_length]
      simp [Backend.initialBank]
  · intro entry hentry
    change entry ∈ e.cache.units at hentry
    rw [hunits] at hentry
    contradiction
  · exact he.keys

theorem coherent_grow (he : e.Coherent) {globals : CompiledGlobals} {backend : Backend}
    (hglobals : e.cache.globals = some globals)
    (hgrowth : globals.backend.table.Extends backend.table) :
    Coherent { e with cache := e.cache.setBackend backend } := by
  have hset : (e.cache.setBackend backend).globals = some { globals with backend } := by
    unfold Cache.setBackend
    rw [hglobals]
    rfl
  refine ⟨he.remembered, ?_, ?_, ?_, he.keys⟩
  · intro installed hinstalled
    rw [hset] at hinstalled
    cases hinstalled
    exact he.version globals hglobals
  · intro installed hinstalled
    rw [hset] at hinstalled
    cases hinstalled
    exact he.banks globals hglobals
  · intro entry hentry
    obtain ⟨hkey, hversion, houtputs, installed, hinstalled, hinto⟩ := he.units entry hentry
    rw [hglobals] at hinstalled
    cases hinstalled
    exact ⟨hkey, hversion, houtputs, _, hset, hinto.mono hgrowth⟩

theorem coherent_insert (he : e.Coherent) {globals : CompiledGlobals} {unit : CompiledUnit}
    (hglobals : e.cache.globals = some globals) (hinto : unit.CompiledInto globals)
    (hversion : unit.version = e.version) (houtputs : unit.request.outputs ≠ []) :
    Coherent { e with cache := e.cache.insert unit } := by
  refine ⟨he.remembered, he.version, he.banks, ?_, ?_⟩
  · intro entry hentry
    rcases List.mem_cons.1 hentry with rfl | hentry
    · exact ⟨rfl, hversion, houtputs, globals, hglobals, hinto⟩
    · exact he.units entry (List.mem_filter.1 hentry).1
  · change (unit.key :: (e.cache.units.filter fun entry => entry.1 != unit.key).map
      Prod.fst).Nodup
    rw [List.nodup_cons]
    refine ⟨?_, he.keys.sublist (List.filter_sublist.map _)⟩
    intro hmem
    obtain ⟨entry, hentry, hkey⟩ := List.mem_map.1 hmem
    simpa [hkey] using (List.mem_filter.1 hentry).2

theorem Change.coherent (h : e.Change e') (he : e.Coherent) : e'.Coherent := by
  cases h with
  | keep hkeeps => exact hkeeps.coherent he
  | drop hremembered hglobals hunits _ => exact coherent_of_empty hremembered hglobals hunits
  | install globals hmissing hversion hbank => exact coherent_install he hmissing hversion hbank
  | grow globals backend hglobals hgrowth => exact coherent_grow he hglobals hgrowth
  | insert globals unit hglobals hinto hversion houtputs _ =>
      exact coherent_insert he hglobals hinto hversion houtputs

theorem Changes.coherent (h : e.Changes e') (he : e.Coherent) : e'.Coherent := by
  induction h with
  | refl => exact he
  | tail _ hchange ih => exact hchange.coherent ih

end Evaluator

end Dataflow
