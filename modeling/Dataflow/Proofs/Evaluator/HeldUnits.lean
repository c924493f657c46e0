import Dataflow.Proofs.Evaluator.SharedCells

/-!
# Units held after their compilation

A caller may keep a unit and run it later. As long as the unit is the one in the cache, running
it and evaluating its request come to the same. Once the unit has been dropped, the evaluator
still runs it while the version is the same, on the bank it was compiled against; evaluating its
request no longer looks at that bank.
-/

namespace Dataflow

open Ir

namespace Evaluator

variable {e e' : Evaluator} {unit : CompiledUnit}

/-! ## Operations that look at no cells -/

/-- The operation does not look into the banks; it may append new ones. -/
def BankBlind {α : Type} (operation : Evaluator → α × Evaluator) : Prop :=
  ∀ (e : Evaluator) (banks : List Bank), banks.length = e.banks.length →
    ∃ (result : α) (e₁ : Evaluator) (added : List Bank),
    operation e = (result, { e₁ with banks := e.banks ++ added }) ∧
      operation { e with banks } = (result, { e₁ with banks := banks ++ added })

theorem refresh_withBanks (e : Evaluator) (banks : List Bank) :
    refresh { e with banks } = { e.refresh with banks } := by
  cases hstale : e.stale || e.index.version != e.graph.version with
  | true => simp [refresh, version, hstale]
  | false => simp [refresh, version, hstale]

theorem bankBlind_ensureGlobals : BankBlind ensureGlobals := by
  intro e banks hlength
  simp only [ensureGlobals, refresh_withBanks, version, banks_refresh, hlength]
  cases e.refresh.cache.globals? e.refresh.graph.version with
  | some globals =>
      refine ⟨.ok globals, e.refresh, [], ?_, ?_⟩
      · simp [← banks_refresh e]
      · simp
  | none =>
      cases (Backend.new e.refresh.options).compileGlobals
        (StorageLayout.build e.refresh.graph e.refresh.index) with
      | mk result backend =>
          cases result with
          | error err =>
              refine ⟨.error err, e.refresh, [], ?_, ?_⟩
              · simp [← banks_refresh e]
              · simp
          | ok bank =>
              exact ⟨_, { e.refresh with
                cache := e.refresh.cache.setGlobals
                  ⟨StorageLayout.build e.refresh.graph e.refresh.index, backend,
                    e.banks.length⟩ }, [bank], rfl, rfl⟩

theorem bankBlind_compileNew (r : UnitRequest) : BankBlind (compileNew · r) := by
  intro e banks hlength
  obtain ⟨result, e₁, added, hensure, hensure'⟩ := bankBlind_ensureGlobals e banks hlength
  simp only [compileNew, hensure, hensure']
  cases result with
  | error err => exact ⟨_, e₁, added, rfl, rfl⟩
  | ok globals =>
      simp only
      cases globals.backend.build e₁.graph e₁.index globals.layout r with
      | mk built backend =>
          cases built with
          | error err =>
              exact ⟨_, { e₁ with cache := e₁.cache.setBackend backend }, added, rfl, rfl⟩
          | ok generated =>
              exact ⟨_, { e₁ with
                cache := (e₁.cache.setBackend backend).insert
                  (.ofGenerated generated globals.bank) }, added, rfl, rfl⟩

theorem bankBlind_compile (r : UnitRequest) : BankBlind (compile · r) := by
  intro e banks hlength
  by_cases hempty : r.outputs = []
  · simp only [compile_of_empty hempty]
    exact ⟨.error .emptyRequest, e, [], by simp, by simp⟩
  · have hnonempty : ¬ r.outputs.isEmpty = true := by simpa using hempty
    simp only [compile, if_neg hnonempty, refresh_withBanks, version, banks_refresh]
    cases e.refresh.cache.get e.refresh.graph.version r with
    | mk found cache =>
        cases found with
        | some unit => exact ⟨.ok unit, { e.refresh with cache }, [], by simp, by simp⟩
        | none =>
            exact bankBlind_compileNew r { e.refresh with cache, banks := e.banks } banks hlength

/-! ## What is known of a unit that was given out -/

/-- The unit loads from a bank of the evaluator, and it is in the cache as long as that bank is
the one in use. -/
structure Knows (e : Evaluator) (unit : CompiledUnit) : Prop where
  bank : unit.bank < e.banks.length
  cached : ∀ globals, e.cache.globals = some globals → globals.bank = unit.bank →
    (unit.key, unit) ∈ e.cache.units

/-- Another bank than that of the unit is in use, or none. -/
def Detached (e : Evaluator) (unit : CompiledUnit) : Prop :=
  ∀ globals, e.cache.globals = some globals → globals.bank ≠ unit.bank

theorem knows_of_mem (he : e.Coherent) {key : CacheKey} (h : (key, unit) ∈ e.cache.units) :
    e.Knows unit := by
  obtain ⟨hkey, -, -, globals, hglobals, hinto⟩ := he.units _ h
  refine ⟨?_, fun _ _ _ => hkey ▸ h⟩
  rw [hinto.bank]
  exact (he.banks globals hglobals).1

theorem knows_insert {added : CompiledUnit} (h : e.Knows unit)
    (hversion : added.version = e.version)
    (hmissing : e.cache.find? e.version added.request = none) :
    Knows { e with cache := e.cache.insert added } unit := by
  refine ⟨h.bank, ?_⟩
  intro globals hglobals hbank
  have hmem := h.cached globals hglobals hbank
  -- The new unit takes a place that was free.
  have hne : unit.key ≠ added.key := by
    intro hkey
    have hfree := List.lookup_eq_none_iff.1 hmissing _ hmem
    rw [hkey, CompiledUnit.key, hversion] at hfree
    simp at hfree
  apply List.mem_cons_of_mem
  rw [List.mem_filter]
  exact ⟨hmem, by simpa using hne⟩

theorem Change.knows (h : e.Change e') (hunit : e.Knows unit) : e'.Knows unit := by
  cases h with
  | keep hkeeps =>
      refine ⟨hkeeps.length ▸ hunit.bank, ?_⟩
      rw [hkeeps.globals, hkeeps.units]
      exact hunit.cached
  | drop _ hglobals _ hbanks =>
      refine ⟨hbanks ▸ hunit.bank, ?_⟩
      intro globals h
      rw [hglobals] at h
      contradiction
  | install globals _ _ hbank =>
      have hlt := hunit.bank
      refine ⟨?_, ?_⟩
      · rw [List.length_append]
        exact Nat.lt_add_right _ hlt
      · intro installed hinstalled hsame
        cases hinstalled
        omega
  | grow globals backend hglobals _ =>
      refine ⟨hunit.bank, ?_⟩
      intro installed hinstalled hsame
      change e.cache.globals.map _ = some installed at hinstalled
      rw [hglobals] at hinstalled
      cases hinstalled
      exact hunit.cached globals hglobals hsame
  | insert globals added _ _ hversion _ hmissing => exact knows_insert hunit hversion hmissing

theorem Change.detached (h : e.Change e') (hunit : e.Knows unit) (hdetached : e.Detached unit) :
    e'.Detached unit := by
  cases h with
  | keep hkeeps =>
      unfold Detached
      rw [hkeeps.globals]
      exact hdetached
  | drop _ hglobals _ _ =>
      intro globals h
      rw [hglobals] at h
      contradiction
  | install globals _ _ hbank =>
      intro installed hinstalled hsame
      cases hinstalled
      have hlt := hunit.bank
      omega
  | grow globals backend hglobals _ =>
      intro installed hinstalled
      change e.cache.globals.map _ = some installed at hinstalled
      rw [hglobals] at hinstalled
      cases hinstalled
      exact hdetached globals hglobals
  | insert globals added _ _ _ _ _ => exact hdetached

theorem Changes.knows (h : e.Changes e') (hunit : e.Knows unit) : e'.Knows unit := by
  induction h with
  | refl => exact hunit
  | tail _ hchange ih => exact hchange.knows ih

theorem Changes.detached (h : e.Changes e') (hunit : e.Knows unit)
    (hdetached : e.Detached unit) : e'.Detached unit := by
  induction h with
  | refl => exact hdetached
  | tail hchanges hchange ih => exact hchange.detached (Changes.knows hchanges hunit) ih

/-- Some compilation on the way has given the unit out. -/
def HeldAfter (g : Graph) (options : Options) (commands : List Command) (unit : CompiledUnit) :
    Prop :=
  ∃ before r rest, commands = before ++ .compile r :: rest ∧
    (((new g options).after before).compile r).1 = .ok unit

theorem knows_after {g : Graph} {options : Options} {commands : List Command}
    (h : HeldAfter g options commands unit) : ((new g options).after commands).Knows unit := by
  obtain ⟨before, r, rest, rfl, hcompile⟩ := h
  have hbefore := coherent_after g options before
  obtain ⟨hchanges, -, hmem⟩ := compiles_compile hbefore r
  have hcompiled := Changes.coherent hchanges hbefore
  have hknows := knows_of_mem hcompiled (hmem unit hcompile)
  have hrest := Changes.knows (changes_after hcompiled rest) hknows
  unfold after at hrest ⊢
  rw [List.foldl_append, List.foldl_cons]
  exact hrest

/-! ## Running a held unit and evaluating its request -/

/-- The evaluator with other contents in one bank. -/
def withBank (e : Evaluator) (k : Nat) (contents : Bank) : Evaluator :=
  { e with banks := e.banks.set k contents }

theorem invoke_of_version (h : unit.version = e.version) (values : List Value) :
    e.invoke unit values = unit.invoke (e.bank unit.bank) values := by
  unfold invoke checkCurrent
  rw [if_pos h]
  rfl

theorem invoke_withBank (hunit : e.Knows unit) (h : unit.version = e.version) (contents : Bank)
    (values : List Value) :
    (e.withBank unit.bank contents).invoke unit values = unit.invoke contents values := by
  rw [invoke_of_version (e := e.withBank unit.bank contents) h]
  unfold bank withBank
  rw [List.getElem?_set_self hunit.bank]
  rfl

theorem invoke_congr (hgraph : e.graph = e'.graph)
    (hbank : e.bank unit.bank = e'.bank unit.bank) (values : List Value) :
    e.invoke unit values = e'.invoke unit values := by
  unfold invoke checkCurrent run version
  rw [hgraph, hbank]

/-- While a unit is in the cache, evaluating its request runs that unit. -/
theorem evaluateRequest_of_cached (houtputs : unit.request.outputs ≠ [])
    (hversion : unit.version = e.version)
    (h : e.cache.find? unit.version unit.request = some unit) (values : List Value) :
    (e.evaluateRequest unit.request values).1 = e.invoke unit values := by
  rw [hversion] at h
  obtain ⟨stats, hcompile⟩ := compile_of_cached houtputs h
  unfold evaluateRequest
  rw [hcompile]
  refine invoke_congr (counted_graph e stats) ?_ values
  unfold bank
  rw [counted_banks]

/-- Once another bank is in use, evaluating does not look at the bank of the unit. -/
theorem evaluateRequest_withBank (he : e.Coherent) (hunit : e.Knows unit)
    (hdetached : e.Detached unit) (contents : Bank) (r : UnitRequest) (values : List Value) :
    ((e.withBank unit.bank contents).evaluateRequest r values).1 =
      (e.evaluateRequest r values).1 := by
  obtain ⟨result, e₁, added, hcompile, hcompile'⟩ :=
    bankBlind_compile r e (e.banks.set unit.bank contents) List.length_set
  obtain ⟨hchanges, -, hmem⟩ := compiles_compile he r
  simp only at hcompile hcompile'
  rw [hcompile] at hchanges hmem
  unfold evaluateRequest withBank
  rw [hcompile, hcompile']
  cases result with
  | error err => rfl
  | ok fresh =>
      obtain ⟨-, -, -, globals, hglobals, hinto⟩ :=
        (Changes.coherent hchanges he).units _ (hmem fresh rfl)
      have hne : unit.bank ≠ fresh.bank := by
        rw [hinto.bank]
        exact (Changes.detached hchanges hunit hdetached globals hglobals).symm
      simp only
      apply invoke_congr
      · rfl
      · unfold bank
        rw [List.getElem?_append, List.getElem?_append, List.length_set,
          List.getElem?_set_ne hne]

theorem detached_of_not_cached (he : e.Coherent) (hunit : e.Knows unit)
    (h : e.cache.find? unit.version unit.request ≠ some unit) : e.Detached unit := by
  intro globals hglobals hbank
  exact h (he.find?_of_mem (hunit.cached globals hglobals hbank))

/-- A unit that was given out and is of the present version answers like the evaluation of its
request, whatever its cells hold, exactly when it is still in the cache or its answers do not
depend on its cells. -/
theorem invoke_agrees_iff {g : Graph} {options : Options} {commands : List Command}
    (hheld : HeldAfter g options commands unit)
    (hversion : unit.version = ((new g options).after commands).version) :
    (∀ contents values vs,
      (((new g options).after commands).withBank unit.bank contents).invoke unit values = .ok vs →
      ((((new g options).after commands).withBank unit.bank contents).evaluateRequest
        unit.request values).1 = .ok vs) ↔
    ((new g options).after commands).cache.find? unit.version unit.request = some unit ∨
      ∀ contents values vs, unit.invoke contents values = .ok vs →
        (((new g options).after commands).evaluateRequest unit.request values).1 = .ok vs := by
  have he := coherent_after g options commands
  have hunit := knows_after hheld
  generalize (new g options).after commands = e at he hunit hversion ⊢
  by_cases hcached : e.cache.find? unit.version unit.request = some unit
  · refine ⟨fun _ => .inl hcached, ?_⟩
    intro _ contents values vs hinvoke
    have houtputs : unit.request.outputs ≠ [] := (he.units _ (mem_of_find? hcached)).2.2.1
    rw [evaluateRequest_of_cached (e := e.withBank unit.bank contents) houtputs hversion hcached]
    exact hinvoke
  · have hdetached := detached_of_not_cached he hunit hcached
    have hlaw : ∀ contents values,
        ((e.withBank unit.bank contents).evaluateRequest unit.request values).1 =
          (e.evaluateRequest unit.request values).1 :=
      fun contents values => evaluateRequest_withBank he hunit hdetached contents _ values
    refine ⟨fun h => .inr ?_, ?_⟩
    · intro contents values vs hinvoke
      rw [← hlaw contents]
      refine h contents values vs ?_
      rw [invoke_withBank hunit hversion]
      exact hinvoke
    · rintro (h | h) contents values vs hinvoke
      · exact absurd h hcached
      · rw [hlaw]
        rw [invoke_withBank hunit hversion] at hinvoke
        exact h contents values vs hinvoke

end Evaluator

/-! ## A held sum -/

namespace LoneSum

open Evaluator

/-- The sum is compiled, all that was compiled is dropped, the cells are compiled again and a
summand is written. -/
def commands : List Command :=
  [.compile request, .markStale, .ensureGlobals, .writeInput ⟨"sum", "a"⟩ (.i32 5)]

/-- The cells compiled after the drop. -/
def globals : CompiledGlobals := ⟨layout, backend, 1⟩

theorem after_commands : ∃ generated b e,
    backend.build graph.remember index layout request = (.ok generated, b) ∧
    (CompiledUnit.ofGenerated generated 0).invoke bank [] = .ok [.i32 0] ∧
    (CompiledUnit.ofGenerated generated 1).invoke written [] = .ok [.i32 5] ∧
    HeldAfter graph {} commands (.ofGenerated generated 0) ∧
    (new graph {}).after commands = e ∧ e.graph = graph.remember ∧
    e.index = Index.build e.graph ∧ e.cache.globals = some globals ∧ e.cache.units = [] ∧
    e.banks = [bank, written] := by
  obtain ⟨generated, b, hbuild, hbank, hwritten⟩ := built
  have hnew := coherent_new graph {}
  obtain ⟨e₁, hcompile, hgraph₁, hoptions₁, hbanks₁⟩ := compile_of_uninstalled hnew rfl
    (by decide) (index_refresh_of_built rfl) cells_compiled hbuild
  have he₁ : e₁.Coherent := by
    have hcompiles := compiles_compile hnew request
    rw [hcompile] at hcompiles
    exact Changes.coherent hcompiles.changes hnew
  obtain ⟨hnone, hunits⟩ := he₁.invalidate_version
  have he₂ := Changes.coherent (changes_markStale he₁) he₁
  have hgraph₂ : e₁.markStale.graph = graph.remember := hgraph₁
  have hindex₂ : e₁.markStale.refresh.index = index := by
    unfold refresh
    rw [if_pos (by rfl), hgraph₂]
    rfl
  have hcells : (Backend.new e₁.markStale.options).compileGlobals
      (StorageLayout.build e₁.markStale.graph index) = (.ok bank, backend) := by
    rw [hgraph₂, show e₁.markStale.options = {} from hoptions₁]
    exact cells_compiled
  obtain ⟨e₃, hensure, hgraph₃, hindex₃, -, hbanks₃⟩ :=
    ensureGlobals_of_uninstalled (e := e₁.markStale) hnone hindex₂ hcells
  have hbanks₂ : e₁.markStale.banks = [bank] := hbanks₁
  rw [hgraph₂] at hgraph₃ hensure
  rw [hbanks₂] at hbanks₃ hensure
  obtain ⟨hchanges, -, hunits₃, hinstalled⟩ := changes_ensureGlobals he₂
  rw [hensure] at hchanges hunits₃ hinstalled
  have he₃ : e₃.Coherent := Changes.coherent hchanges he₂
  have hglobals₃ : e₃.cache.globals = some globals := hinstalled globals rfl
  have hcell : globals.layout.cell? ⟨"sum", "a"⟩ =
      some ⟨⟨"sum", "a"⟩, "sum - a", .i32, .i32 0⟩ := by decide +kernel
  obtain ⟨hwrite, -⟩ := writeInput_eq_ok he₃ (currentGlobals_of_globals he₃ hglobals₃) hcell
    (show (Value.i32 5).dataType = .i32 from rfl)
  refine ⟨generated, b, e₃.putCell 1 "sum - a" (.i32 5), hbuild, hbank, hwritten, ?_, ?_, hgraph₃,
    ?_, hglobals₃, ?_, ?_⟩
  · refine ⟨[], request, _, rfl, ?_⟩
    change ((new graph {}).compile request).1 = _
    rw [hcompile]
    rfl
  · simp only [commands, after, List.foldl, step, hcompile]
    rw [hensure, hwrite]
    rfl
  · change e₃.index = Index.build e₃.graph
    rw [hindex₃, hgraph₃]
    rfl
  · exact hunits₃.trans hunits
  · change e₃.banks.modify 1 _ = _
    rw [hbanks₃]
    decide

/-- The held sum is of the present version. -/
theorem invoke_agrees_iff_held : ∃ unit, HeldAfter graph {} commands unit ∧
    unit.version = ((new graph {}).after commands).version ∧
    ((∀ contents values vs,
      (((new graph {}).after commands).withBank unit.bank contents).invoke unit values = .ok vs →
      ((((new graph {}).after commands).withBank unit.bank contents).evaluateRequest
        unit.request values).1 = .ok vs) ↔
    ((new graph {}).after commands).cache.find? unit.version unit.request = some unit ∨
      ∀ contents values vs, unit.invoke contents values = .ok vs →
        (((new graph {}).after commands).evaluateRequest unit.request values).1 = .ok vs) := by
  obtain ⟨generated, b, e, hbuild, -, -, hheld, hafter, hgraph, -⟩ := after_commands
  obtain ⟨hversion, -⟩ := Backend.unit_of_build hbuild
  have hcurrent : (CompiledUnit.ofGenerated generated 0).version =
      ((new graph {}).after commands).version := by
    rw [hafter, version, hgraph]
    exact hversion
  exact ⟨_, hheld, hcurrent, invoke_agrees_iff hheld hcurrent⟩

/-- The held sum still runs, on the cells it was compiled against, while the value written last
is seen by the evaluation of its request. -/
theorem invoke_held_stale : ∃ unit, HeldAfter graph {} commands unit ∧
    ((new graph {}).after commands).invoke unit [] = .ok [.i32 0] ∧
    (((new graph {}).after commands).evaluateRequest unit.request []).1 = .ok [.i32 5] := by
  obtain ⟨generated, b, e, hbuild, hbank, hwritten, hheld, hafter, hgraph, hindex, hglobals,
    hunits, hbanks⟩ := after_commands
  obtain ⟨hversion, hrequest, -⟩ := Backend.unit_of_build hbuild
  have he : e.Coherent := hafter ▸ coherent_after graph {} commands
  have hcurrent : generated.version = e.version := by
    rw [hversion, version, hgraph]
  refine ⟨.ofGenerated generated 0, hheld, ?_, ?_⟩
  · rw [hafter, invoke_of_version (show (CompiledUnit.ofGenerated generated 0).version = _ from
      hcurrent)]
    have hfirst : e.bank (CompiledUnit.ofGenerated generated 0).bank = bank := by
      unfold Evaluator.bank
      rw [hbanks]
      rfl
    rw [hfirst]
    exact hbank
  · have hmissing : e.cache.find? e.version request = none := by
      unfold Cache.find?
      rw [hunits]
      rfl
    have hbuild' : globals.backend.build e.graph index globals.layout request =
        (.ok generated, b) := by
      rw [hgraph]
      exact hbuild
    have hindex' : e.refresh.index = index := by
      rw [index_refresh_of_built hindex, hgraph]
      rfl
    obtain ⟨e₁, hcompile₁, hgraph₁, hbanks₁⟩ := compile_of_installed he hglobals (by decide)
      hmissing hindex' hbuild'
    rw [hafter, show (CompiledUnit.ofGenerated generated 0).request = request from hrequest]
    unfold evaluateRequest
    rw [hcompile₁]
    have hcurrent₁ : (CompiledUnit.ofGenerated generated globals.bank).version = e₁.version := by
      rw [version, hgraph₁]
      exact hcurrent
    change e₁.invoke _ [] = _
    have hsecond : e₁.bank (CompiledUnit.ofGenerated generated globals.bank).bank = written := by
      unfold Evaluator.bank
      rw [hbanks₁, hbanks]
      rfl
    rw [invoke_of_version hcurrent₁, hsecond]
    exact hwritten

end LoneSum

end Dataflow
