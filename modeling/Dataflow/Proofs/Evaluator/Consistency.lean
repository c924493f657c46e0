import Dataflow.Proofs.Evaluator.Failures
import Dataflow.Proofs.Unit.Completeness

/-!
# Evaluators are never found inconsistent

Graph, index and cells stay in step, so no operation on a state that is reached ends with the
error for a state in which they are not, and compiling finds the cells it has compiled.
`Evaluator.Fits` says what this rests on: every entry function is made from a plan, an index,
cells and functions in which all its look-ups succeed. The main result is
`Evaluator.never_inconsistent`.
-/

namespace Dataflow

open Ir

theorem FailsOnly.of_errorOf? {α : Type} {P : UnitError → Prop} {x : Except UnitError α}
    (h : FailsOnly P x) {err : UnitError} (herr : errorOf? x = some err) : P err :=
  h err (errorOf?_eq_some herr)

/-! ## Backends -/

namespace Backend

variable {g h k : Graph}

theorem failsOnly_generate (hh : h.Agrees g) (hk : k.Agrees g) (b : Backend) (r : UnitRequest) :
    FailsOnly UnitError.IsExternal (b.generate g (Index.build h) k.layout r).1 := by
  have hunit := failsOnly_generateUnit hh hk r (b.sequence + 1) b.table
  unfold generate
  simp only
  generalize (generateUnit g (Index.build h) k.layout r (b.sequence + 1)).run b.table =
    outcome at hunit ⊢
  obtain ⟨result, t⟩ := outcome
  cases result with
  | error err => exact .error (hunit err rfl)
  | ok unit => exact .ok unit

theorem failsOnly_defineFunctions (t : SymbolTable) (functions : List Function) :
    FailsOnly UnitError.IsExternal (defineFunctions t functions).1 := by
  intro err h
  obtain ⟨s, rfl⟩ := error_of_defineFunctions h
  trivial

theorem failsOnly_compileUnit (b : Backend) (unit : GeneratedUnit) :
    FailsOnly UnitError.IsExternal (b.compileUnit unit).1 := by
  unfold compileUnit
  split
  · exact .error trivial
  · exact failsOnly_defineFunctions _ _

theorem failsOnly_build (hh : h.Agrees g) (hk : k.Agrees g) (b : Backend) (r : UnitRequest) :
    FailsOnly UnitError.IsExternal (b.build g (Index.build h) k.layout r).1 := by
  have hgenerate := failsOnly_generate hh hk b r
  unfold build
  generalize b.generate g (Index.build h) k.layout r = outcome at hgenerate ⊢
  obtain ⟨result, b₁⟩ := outcome
  cases result with
  | error err => exact .error (hgenerate err rfl)
  | ok unit =>
      have hcompile := failsOnly_compileUnit b₁ unit
      simp only
      generalize b₁.compileUnit unit = outcome at hcompile ⊢
      obtain ⟨result, b₂⟩ := outcome
      cases result with
      | error err => exact .error (hcompile err rfl)
      | ok _ => exact .ok unit

end Backend

/-! ## Running units -/

namespace CompiledUnit

theorem failsOnly_writeInputs (layout : RecordLayout) (record : Bytes) (field : Nat)
    (values : List Value) (ports : List PortRef) :
    FailsOnly UnitError.IsExternal (writeInputs layout record field values ports) := by
  fun_induction writeInputs layout record field values ports with
  | case1 _ _ _ _ _ _ _ ih => exact ih
  | case2 => exact .error trivial
  | case3 => exact .ok _

theorem failsOnly_readOutputs (u : CompiledUnit) (record : Bytes) (field : Nat)
    (ports : List PortRef) :
    FailsOnly UnitError.IsExternal (u.readOutputs record field ports) := by
  induction ports generalizing field with
  | nil => exact .ok []
  | cons port ports ih =>
      unfold readOutputs
      split
      · exact .error trivial
      · exact .bind (ih _) fun _ _ => .ok _

theorem failsOnly_execute (u : CompiledUnit) (cells : Bank) (input : Bytes) :
    FailsOnly UnitError.IsExternal (u.execute cells input) := by
  unfold execute
  split
  · exact .error trivial
  · rename_i f _
    cases f.runEntry u.functions cells input u.outputLayout.allocate with
    | error trap => exact .error trivial
    | ok output => exact .ok output

theorem failsOnly_invoke (u : CompiledUnit) (cells : Bank) (values : List Value) :
    FailsOnly UnitError.IsExternal (u.invoke cells values) := by
  unfold invoke
  split
  · exact .error trivial
  · refine .bind (failsOnly_writeInputs _ _ _ _ _) fun _ _ => ?_
    exact .bind (u.failsOnly_execute _ _) fun _ _ => u.failsOnly_readOutputs _ _ _

end CompiledUnit

namespace Evaluator

variable {e e' : Evaluator} {graphs : List Graph} {globals : CompiledGlobals} {r : UnitRequest}

theorem failsOnly_invoke (e : Evaluator) (unit : CompiledUnit) (values : List Value) :
    FailsOnly UnitError.IsExternal (e.invoke unit values) := by
  refine .bind ?_ fun _ _ => unit.failsOnly_invoke _ _
  unfold checkCurrent
  split
  · exact .ok ()
  · exact .error trivial

/-! ## Cells -/

/-- Errors of operations that need cells: they may not be compiled yet. -/
def CellError (err : UnitError) : Prop :=
  err.IsExternal ∨ ∃ version, err = .globalsNotCompiled version

theorem failsOnly_currentGlobals (e : Evaluator) : FailsOnly CellError e.currentGlobals := by
  unfold currentGlobals
  split
  · exact .error (.inr ⟨_, rfl⟩)
  · exact .ok _

theorem failsOnly_writeCell (e : Evaluator) (globals : CompiledGlobals) (port : PortRef)
    (value : Value) : FailsOnly CellError (e.writeCell globals port value) := by
  unfold writeCell
  split
  · exact .error (.inl trivial)
  · split
    · exact .ok _
    · exact .error (.inl trivial)

theorem failsOnly_writeInput (e : Evaluator) (port : PortRef) (value : Value) :
    FailsOnly CellError (e.writeInput port value).1 := by
  unfold writeInput
  split
  · rename_i hglobals
    exact .error (e.failsOnly_currentGlobals _ hglobals)
  · split
    · rename_i hwrite
      exact .error (e.failsOnly_writeCell _ port value _ hwrite)
    · exact .ok ()

/-- Setting an input fails as writing it does, or not at all. -/
theorem InStep.failsOnly_setInput (hstep : InStep graphs e) (he : e.Coherent) (port : PortRef)
    (value : Value) : FailsOnly CellError (e.setInput port value).1 := by
  have hwrites := e.failsOnly_writeInput port value
  rcases writeInput_cases e port value with ⟨err, hwrite⟩ | ⟨globals, cell, hglobals, hcell,
    htype, hwrite⟩
  · rw [setInput_of_refused hwrite]
    rw [hwrite] at hwrites
    exact hwrites
  · have hfor := hstep.layout globals (globals_of_currentGlobals he hglobals)
    obtain ⟨g, hset⟩ := exists_setInputValue hfor hcell htype
    rw [setInput_of_written hwrite hset]
    exact .ok ()

theorem failsOnly_readInput (e : Evaluator) (port : PortRef) :
    FailsOnly CellError (e.readInput port) := by
  refine .bind e.failsOnly_currentGlobals fun globals _ => ?_
  split
  · exact .error (.inl trivial)
  · simp only
    split
    · exact .error (.inl trivial)
    · exact .ok _

theorem InStep.failsOnly_syncInputs (hstep : InStep graphs e) (he : e.Coherent) :
    FailsOnly CellError e.syncInputs.1 := by
  unfold syncInputs
  split
  · rename_i hglobals
    exact .error (e.failsOnly_currentGlobals _ hglobals)
  · rename_i globals hglobals
    have hfor := hstep.layout globals (globals_of_currentGlobals he hglobals)
    obtain ⟨banks, hsync, -⟩ := syncFrom_of_laidOutFor hstep.reachable.wellFormed hfor e
    rw [hsync]
    exact .ok _

/-- A graph of the run is always taken over. -/
theorem InStep.replaceGraph_eq_ok (hstep : InStep graphs e) (hapart : Graph.ToldApart graphs)
    (he : e.Coherent) {g : Graph} (hg : g ∈ graphs) : (e.replaceGraph g).1 = .ok () := by
  by_cases hversion : g.version = e.version
  · cases hglobals : e.cache.globals with
    | none => rw [replaceGraph_of_uninstalled hversion hglobals]
    | some globals =>
        have hremember := (hapart.reachable g hg).agrees_remember
        have hagrees : e.graph.Agrees g.remember :=
          (hapart.agrees_of_version ⟨g, hg, hremember⟩ hstep.graph hversion).symm
        obtain ⟨h, hfor, hlayout⟩ := hstep.layout globals hglobals
        obtain ⟨banks, hsync, -⟩ := syncFrom_of_laidOutFor hremember.left.wellFormed
          ⟨h, hfor.trans hagrees, hlayout⟩ { e with graph := g.remember }
        rw [replaceGraph_of_installed he hversion hglobals hsync]
        rfl
  · rw [replaceGraph_of_ne hversion]

/-! ## Compiling -/

/-- Index and cells that a unit is built from stem from graphs that agree with the present one. -/
theorem InStep.exists_agreeing (hstep : InStep graphs e) (hapart : Graph.ToldApart graphs)
    (hensured : e.Ensured globals e') :
    ∃ h k : Graph, h.Agrees e'.graph ∧ k.Agrees e'.graph ∧ e'.index = Index.build h ∧
      globals.layout = k.layout := by
  obtain ⟨h, hh, hindex⟩ := hstep.exists_index hapart
  obtain ⟨k, hk, hlayout⟩ := (hstep.ensured hapart hensured).layout globals hensured.installed
  exact ⟨h, k, hensured.graph ▸ hh, hk, hensured.index.trans hindex, hlayout⟩

theorem InStep.failsOnly_compile (hstep : InStep graphs e) (hapart : Graph.ToldApart graphs)
    (he : e.Coherent) (r : UnitRequest) : FailsOnly UnitError.IsExternal (e.compile r).1 := by
  have hasks := asks_compile he r
  generalize e.compile r = outcome at hasks ⊢
  obtain ⟨result, e'⟩ := outcome
  cases hasks with
  | refused _ => exact .error trivial
  | found _ _ => exact .ok _
  | @failed globals e₁ err backend _ _ ensured build =>
      obtain ⟨h, k, hh, hk, hindex, hlayout⟩ :=
        (hstep.counted hapart _).exists_agreeing hapart ensured
      have hbuild := Backend.failsOnly_build hh hk globals.backend r
      rw [← hindex, ← hlayout, build] at hbuild
      exact .error (hbuild err rfl)
  | built _ _ _ _ => exact .ok _

theorem InStep.failsOnly_code (hstep : InStep graphs e) (hapart : Graph.ToldApart graphs)
    (r : UnitRequest) : FailsOnly UnitError.IsExternal (e.code r).1 := by
  obtain ⟨h, hh, hindex⟩ := hstep.exists_index hapart
  have hgenerate := Backend.failsOnly_generate hh (.refl hstep.reachable)
    (Backend.new e.refresh.options) r
  rw [← hstep.freshLayout_eq hapart, ← hindex] at hgenerate
  have hcode : (e.code r).1 = ((Backend.new e.refresh.options).generate e.graph e.refresh.index
      e.freshLayout r).1.map GeneratedUnit.text := by
    unfold code freshLayout
    simp only [graph_refresh]
  rw [hcode]
  cases hresult : ((Backend.new e.refresh.options).generate e.graph e.refresh.index
      e.freshLayout r).1 with
  | error err => exact .error (hgenerate err hresult)
  | ok unit => exact .ok unit.text

theorem InStep.failsOnly_evaluateRequest (hstep : InStep graphs e)
    (hapart : Graph.ToldApart graphs) (he : e.Coherent) (r : UnitRequest) (values : List Value) :
    FailsOnly UnitError.IsExternal (e.evaluateRequest r values).1 := by
  have hcompile := hstep.failsOnly_compile hapart he r
  unfold evaluateRequest
  generalize e.compile r = outcome at hcompile ⊢
  obtain ⟨result, e'⟩ := outcome
  cases result with
  | error err => exact .error (hcompile err rfl)
  | ok unit => exact e'.failsOnly_invoke unit values

/-- The operations that compile, or show what would be compiled. -/
def Command.compiles : Command → Bool
  | .ensureGlobals | .compile .. | .code .. | .evaluate .. | .evaluateWith .. => true
  | _ => false

/-- No operation finds the evaluator inconsistent, and those that compile find their cells. -/
theorem InStep.error (hstep : InStep graphs e) (hapart : Graph.ToldApart graphs)
    (he : e.Coherent) {command : Command} (hlisted : ∀ g, command.graph? = some g → g ∈ graphs)
    {err : UnitError} (herr : e.error? command = some err) :
    err.IsExternal ∨ command.compiles = false ∧ CellError err := by
  cases command with
  | replaceGraph g =>
      have hok := hstep.replaceGraph_eq_ok hapart he (hlisted g rfl)
      rw [error?, hok] at herr
      contradiction
  | ensureGlobals =>
      obtain ⟨globals, e', hensure, -⟩ := exists_ensured he
      rw [error?, hensure] at herr
      contradiction
  | compile r => exact .inl ((hstep.failsOnly_compile hapart he r).of_errorOf? herr)
  | code r => exact .inl ((hstep.failsOnly_code hapart r).of_errorOf? herr)
  | writeInput port value =>
      exact .inr ⟨rfl, (e.failsOnly_writeInput port value).of_errorOf? herr⟩
  | setInput port value =>
      exact .inr ⟨rfl, (hstep.failsOnly_setInput he port value).of_errorOf? herr⟩
  | readInput port => exact .inr ⟨rfl, (e.failsOnly_readInput port).of_errorOf? herr⟩
  | syncInputs => exact .inr ⟨rfl, (hstep.failsOnly_syncInputs he).of_errorOf? herr⟩
  | invoke unit values =>
      exact .inl ((e.failsOnly_invoke unit values).of_errorOf? herr)
  | evaluate outputs =>
      exact .inl ((hstep.failsOnly_evaluateRequest hapart he _ _).of_errorOf? herr)
  | evaluateWith inputs values outputs =>
      exact .inl ((hstep.failsOnly_evaluateRequest hapart he _ _).of_errorOf? herr)
  | _ => contradiction

/-! ## What entry functions are made from -/

/-- An entry function for the request is made from this context, once the plan is made and the
functions of the computed nodes are generated. -/
inductive Prepares (e : Evaluator) (r : UnitRequest) : EntryContext → Prop
  /-- To show the code, over the cells that the graph has now. -/
  | code {plan : UnitPlan} {functions : List (String × Function)} {label : String}
      {taken : List String} {t t' : SymbolTable}
      (planned : UnitPlan.make e.graph e.refresh.index e.freshLayout r = .ok plan)
      (generated : (generateNodes (nodeSymbols label taken plan.called)).run t =
        (.ok functions, t')) :
      Prepares e r ⟨e.refresh.index, e.freshLayout, plan, functions⟩
  /-- To compile a unit that is not in the cache, over the cells that are compiled then. -/
  | compile {globals : CompiledGlobals} {e₁ : Evaluator} {plan : UnitPlan}
      {functions : List (String × Function)} {label : String} {taken : List String}
      {t t' : SymbolTable}
      (ensured : (e.counted e.cache.stats.countMiss).ensureGlobals = (.ok globals, e₁))
      (planned : UnitPlan.make e₁.graph e₁.index globals.layout r = .ok plan)
      (generated : (generateNodes (nodeSymbols label taken plan.called)).run t =
        (.ok functions, t')) :
      Prepares e r ⟨e₁.index, globals.layout, plan, functions⟩

theorem InStep.complete (hstep : InStep graphs e) (hapart : Graph.ToldApart graphs)
    (he : e.Coherent) {c : EntryContext} (hc : e.Prepares r c) : c.Complete e.graph := by
  cases hc with
  | code planned generated =>
      obtain ⟨h, hh, hindex⟩ := hstep.exists_index hapart
      rw [hindex, hstep.freshLayout_eq hapart] at planned ⊢
      exact EntryContext.complete_of_agrees hh (.refl hstep.reachable) planned generated
  | compile ensured planned generated =>
      have hcounted := (keeps_counted e e.cache.stats.countMiss).coherent he
      obtain ⟨_, _, hensure, hensured⟩ := exists_ensured hcounted
      rw [ensured] at hensure
      cases hensure
      obtain ⟨h, k, hh, hk, hindex, hlayout⟩ :=
        (hstep.counted hapart _).exists_agreeing hapart hensured
      rw [hindex, hlayout] at planned ⊢
      have hcomplete := EntryContext.complete_of_agrees hh hk planned generated
      rw [hensured.graph, counted_graph] at hcomplete
      exact hcomplete

/-- Graph, index, cells and code fit together wherever they are looked up. -/
structure Fits (e : Evaluator) : Prop where
  /-- The cells of the present version can be compiled, and are found then. -/
  ensured : ∃ globals, e.ensureGlobals.1 = .ok globals ∧
    e.ensureGlobals.2.currentGlobals = .ok globals
  compiled : ∀ r, r.outputs ≠ [] → e.cache.find? e.version r = none →
    ∃ globals, (e.compile r).2.currentGlobals = .ok globals
  /-- Every look-up of an entry function has an answer. -/
  complete : ∀ r c, e.Prepares r c → c.Complete e.graph
  /-- Once the nodes have had their turn the requested values are at hand. -/
  computed : ∀ r c, e.Prepares r c → ∀ d t t',
    (c.evaluate .start c.plan.order).run t = (.ok d, t') →
    ∀ typed ∈ c.plan.outputs, ∃ v, d.values.lookup typed.1 = some v
  /-- Entry functions can be refused for symbols and for cycles only. -/
  refused : ∀ r c, e.Prepares r c → ∀ name, Generation.FailsOnly c.Refuses (c.generate name)

theorem InStep.fits (hstep : InStep graphs e) (hapart : Graph.ToldApart graphs)
    (he : e.Coherent) : e.Fits := by
  refine ⟨?_, ?_, fun r c hc => hstep.complete hapart he hc, ?_, ?_⟩
  · obtain ⟨globals, e', hensure, hensured⟩ := exists_ensured he
    have he' := Changes.coherent (changes_ensureGlobals he).1 he
    rw [hensure] at he' ⊢
    exact ⟨globals, rfl, currentGlobals_of_globals he' hensured.installed⟩
  · intro r houtputs hmiss
    have hasks := asks_compile he r
    have he' := Changes.coherent (compiles_compile he r).changes he
    generalize e.compile r = outcome at hasks he' ⊢
    obtain ⟨result, e'⟩ := outcome
    cases hasks with
    | refused hempty => contradiction
    | found _ hit =>
        rw [hmiss] at hit
        contradiction
    | failed _ _ ensured _ => exact ⟨_, currentGlobals_of_globals he' (ensured.grown _)⟩
    | built _ _ ensured _ => exact ⟨_, currentGlobals_of_globals he' (ensured.grown _)⟩
  · intro r c hc d t t' hevaluate typed htyped
    exact EntryDraft.exists_value_iff.2
      ((hstep.complete hapart he hc).sources_known hevaluate typed htyped)
  · exact fun r c hc name => (hstep.complete hapart he hc).generate name

/-- In every state that is reached, no operation finds graph, index and cells at odds, compiling
does not miss its cells, and all that entry functions look up is there. -/
theorem never_inconsistent (g : Graph) (options : Options) (commands : List Command)
    (command : Command) (hapart : Graph.ToldApart (graphsOf g (commands ++ [command]))) :
    (∀ node version, ((new g options).after commands).error? command ≠
      some (.inconsistent node version)) ∧
    (command.compiles = true → ∀ version, ((new g options).after commands).error? command ≠
      some (.globalsNotCompiled version)) ∧
    ((new g options).after commands).Fits := by
  have hsubset : graphsOf g commands ⊆ graphsOf g (commands ++ [command]) :=
    graphsOf_subset (List.subset_append_left _ _) g
  have hstep := (inStep_after (hapart.mono hsubset) options).mono hsubset
  have he := coherent_after g options commands
  have hlisted : ∀ k, command.graph? = some k → k ∈ graphsOf g (commands ++ [command]) :=
    fun k hk => mem_graphsOf (List.mem_append_right _ (List.mem_singleton.2 rfl)) hk
  refine ⟨?_, ?_, hstep.fits hapart he⟩
  · intro node version herr
    rcases hstep.error hapart he hlisted herr with hexternal | ⟨-, hexternal | ⟨_, hne⟩⟩
    · exact hexternal
    · exact hexternal
    · contradiction
  · intro hcompiles version herr
    rcases hstep.error hapart he hlisted herr with hexternal | ⟨hnot, -⟩
    · exact hexternal
    · rw [hcompiles] at hnot
      contradiction

end Evaluator

namespace LoneSum

open Evaluator

theorem prepares_sum : ∃ c, ((new graph {}).after commands).Prepares request c := by
  obtain ⟨_, _, e, hbuild, -, -, -, hafter, hgraph, hindex, -⟩ := after_commands
  obtain ⟨b, hgenerate, -⟩ := Backend.build_eq_ok hbuild
  obtain ⟨hrun, -⟩ := Backend.generate_eq_ok hgenerate
  obtain ⟨plan, functions, entry, t, hplan, hnodes, -⟩ := generateUnit_eq_ok hrun
  have hbuilt : e.refresh.index = index := by
    rw [index_refresh_of_built hindex, hgraph]
    rfl
  have hlayout : e.freshLayout = layout := by
    rw [freshLayout, hbuilt, hgraph]
    rfl
  refine ⟨_, .code ?_ hnodes⟩
  rw [hafter, hbuilt, hlayout, hgraph]
  exact hplan

/-- An edit could be taken over next, or the sum be compiled. -/
theorem never_inconsistent_loneSum :
    Graph.ToldApart (graphsOf graph (commands ++ [.replaceGraph edited])) ∧
    (∀ node version, ((new graph {}).after commands).error? (.replaceGraph edited) ≠
      some (.inconsistent node version)) ∧
    (∀ version, ((new graph {}).after commands).error? (.compile request) ≠
      some (.globalsNotCompiled version)) ∧
    ∃ c, ((new graph {}).after commands).Prepares request c ∧
      c.Complete ((new graph {}).after commands).graph := by
  have hapart : Graph.ToldApart (graphsOf graph (commands ++ [.replaceGraph edited])) := toldApart
  have hapart' : Graph.ToldApart (graphsOf graph (commands ++ [.compile request])) :=
    toldApart.mono (List.subset_append_left [graph] [edited])
  obtain ⟨hreplace, -, hfits⟩ := never_inconsistent graph {} commands (.replaceGraph edited) hapart
  obtain ⟨-, hcompile, -⟩ := never_inconsistent graph {} commands (.compile request) hapart'
  obtain ⟨c, hc⟩ := prepares_sum
  exact ⟨hapart, hreplace, hcompile rfl, c, hc, hfits.complete request c hc⟩

end LoneSum

end Dataflow
