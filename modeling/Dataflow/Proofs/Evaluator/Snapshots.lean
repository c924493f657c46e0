import Dataflow.Proofs.Evaluator.Compiling
import Dataflow.Proofs.Evaluator.Writing
import Dataflow.Proofs.Storage.FreeInputs

/-!
# Graph, index and cells stay in step

An evaluator keeps the graph, an index of it and the layout of the compiled cells, each of which
may stem from another of the graphs that were taken over. As long as the versions tell these
graphs apart, the three describe one structure in every state that is reached:
`Evaluator.inStep_after`. So every free input has its cell, a value that a cell takes is taken
by the graph as well, and the authored values can always be written to the cells.
-/

namespace Dataflow

open Ir

/-- The graphs were made by editing, and those of one version have one structure. -/
structure Graph.ToldApart (graphs : List Graph) : Prop where
  reachable : ∀ g ∈ graphs, g.Reachable
  same : ∀ g ∈ graphs, ∀ h ∈ graphs, g.version = h.version → g.SameStructure h

theorem Graph.ToldApart.mono {graphs graphs' : List Graph} (h : ToldApart graphs)
    (hsubset : graphs' ⊆ graphs) : ToldApart graphs' :=
  ⟨fun g hg => h.reachable g (hsubset hg),
    fun g hg k hk => h.same g (hsubset hg) k (hsubset hk)⟩

theorem Graph.ToldApart.agrees {graphs : List Graph} (h : ToldApart graphs) {g k : Graph}
    (hg : g ∈ graphs) (hk : k ∈ graphs) (hversion : g.version = k.version) : g.Agrees k :=
  ⟨h.reachable g hg, h.reachable k hk, hversion, h.same g hg k hk hversion⟩

/-- Graphs of one version agree also when each of them only agrees with a given one. -/
theorem Graph.ToldApart.agrees_of_version {graphs : List Graph} (h : ToldApart graphs)
    {g g' : Graph} (hg : ∃ k ∈ graphs, g.Agrees k) (hg' : ∃ k ∈ graphs, g'.Agrees k)
    (hversion : g.version = g'.version) : g.Agrees g' := by
  obtain ⟨k, hk, hgk⟩ := hg
  obtain ⟨k', hk', hgk'⟩ := hg'
  have hkk' : k.Agrees k' := by
    apply h.agrees hk hk'
    rw [← hgk.version, hversion, hgk'.version]
  exact (hgk.trans hkk').trans hgk'.symm

/-- The cells were laid out for a graph that agrees with this one. -/
def CompiledGlobals.LaidOutFor (globals : CompiledGlobals) (g : Graph) : Prop :=
  ∃ h : Graph, h.Agrees g ∧ globals.layout = h.layout

namespace CompiledGlobals.LaidOutFor

variable {globals : CompiledGlobals} {g : Graph} {port : PortRef} {cell : StorageCell}

theorem exists_cell_iff (hfor : globals.LaidOutFor g) :
    (∃ cell, globals.layout.cell? port = some cell) ↔ ∃ ty, g.FreeInput port ty := by
  obtain ⟨h, hagrees, hlayout⟩ := hfor
  rw [hlayout, StorageLayout.exists_cell_iff_freeInput hagrees.left.wellFormed]
  exact ⟨fun ⟨ty, hfree⟩ => ⟨ty, hagrees.freeInput hfree⟩,
    fun ⟨ty, hfree⟩ => ⟨ty, hagrees.symm.freeInput hfree⟩⟩

theorem freeInput (hfor : globals.LaidOutFor g) (hcell : cell ∈ globals.layout.cells) :
    g.FreeInput cell.port cell.dataType := by
  obtain ⟨h, hagrees, hlayout⟩ := hfor
  rw [hlayout] at hcell
  exact hagrees.freeInput (StorageLayout.freeInput_of_mem hagrees.left.wellFormed hcell).1

theorem cell?_of_mem (hfor : globals.LaidOutFor g) (hcell : cell ∈ globals.layout.cells) :
    globals.layout.cell? cell.port = some cell := by
  obtain ⟨h, hagrees, hlayout⟩ := hfor
  rw [hlayout] at hcell ⊢
  exact StorageLayout.cell?_of_mem hagrees.left.wellFormed hcell

theorem nodup_symbols (hfor : globals.LaidOutFor g) :
    (globals.layout.cells.map StorageCell.symbol).Nodup := by
  obtain ⟨h, -, hlayout⟩ := hfor
  rw [hlayout]
  exact StorageLayout.nodup_symbols h _

end CompiledGlobals.LaidOutFor

namespace Evaluator

variable {e e' : Evaluator} {graphs : List Graph} {globals : CompiledGlobals}

/-- The graph that an operation brings. -/
def Command.graph? : Command → Option Graph
  | .replaceGraph g => some g
  | _ => none

/-- The graphs of a run. -/
def graphsOf (g : Graph) (commands : List Command) : List Graph :=
  g :: commands.filterMap Command.graph?

theorem mem_graphsOf {g k : Graph} {commands : List Command} {command : Command}
    (hcommand : command ∈ commands) (hgraph : command.graph? = some k) :
    k ∈ graphsOf g commands :=
  List.mem_cons_of_mem _ (List.mem_filterMap.2 ⟨command, hcommand, hgraph⟩)

theorem graphsOf_subset {commands commands' : List Command} (h : commands ⊆ commands')
    (g : Graph) : graphsOf g commands ⊆ graphsOf g commands' :=
  List.cons_subset_cons _ (List.filterMap_subset _ h)

/-- Graph, index and cells stem from the given graphs, and the cells are those of the graph. -/
structure InStep (graphs : List Graph) (e : Evaluator) : Prop where
  graph : ∃ k ∈ graphs, e.graph.Agrees k
  index : ∃ h : Graph, (∃ k ∈ graphs, h.Agrees k) ∧ e.index = Index.build h
  layout : ∀ globals, e.cache.globals = some globals → globals.LaidOutFor e.graph

theorem InStep.mono (hstep : InStep graphs e) {graphs' : List Graph} (h : graphs ⊆ graphs') :
    InStep graphs' e := by
  obtain ⟨k, hk, hgraph⟩ := hstep.graph
  obtain ⟨i, ⟨j, hj, hij⟩, hindex⟩ := hstep.index
  exact ⟨⟨k, h hk, hgraph⟩, ⟨i, ⟨j, h hj, hij⟩, hindex⟩, hstep.layout⟩

theorem InStep.reachable (hstep : InStep graphs e) : e.graph.Reachable := by
  obtain ⟨k, -, hagrees⟩ := hstep.graph
  exact hagrees.left

/-- The index in use is that of a graph that agrees with the present one. -/
theorem InStep.exists_index (hstep : InStep graphs e) (hapart : Graph.ToldApart graphs) :
    ∃ h : Graph, h.Agrees e.graph ∧ e.refresh.index = Index.build h := by
  unfold refresh
  split
  · exact ⟨e.graph, .refl hstep.reachable, rfl⟩
  · rename_i hfresh
    simp only [Bool.or_eq_true, bne_iff_ne, not_or, not_not] at hfresh
    obtain ⟨h, hlisted, hindex⟩ := hstep.index
    refine ⟨h, hapart.agrees_of_version hlisted hstep.graph ?_, hindex⟩
    calc h.version = (Index.build h).version := rfl
      _ = e.index.version := by rw [hindex]
      _ = e.version := hfresh.2

/-- The cells that the graph has now are laid out as by an index of its own. -/
theorem InStep.freshLayout_eq (hstep : InStep graphs e) (hapart : Graph.ToldApart graphs) :
    e.freshLayout = e.graph.layout := by
  obtain ⟨h, hagrees, hindex⟩ := hstep.exists_index hapart
  unfold freshLayout
  rw [hindex]
  exact StorageLayout.build_of_agrees hagrees.symm

/-! ## Operations keep them in step -/

/-- It is enough that the graph keeps its structure, the index is the old one or the one in use,
and cells are laid out as before or for the graph. -/
theorem InStep.transfer (hstep : InStep graphs e) (hapart : Graph.ToldApart graphs)
    (hgraph : e'.graph.Agrees e.graph) (hindex : e'.index = e.index ∨ e'.index = e.refresh.index)
    (hlayout : ∀ globals', e'.cache.globals = some globals' →
      globals'.layout = e.graph.layout ∨
        ∃ globals, e.cache.globals = some globals ∧ globals'.layout = globals.layout) :
    InStep graphs e' := by
  obtain ⟨k, hk, hek⟩ := hstep.graph
  refine ⟨⟨k, hk, hgraph.trans hek⟩, ?_, ?_⟩
  · rcases hindex with hindex | hindex
    · rw [hindex]
      exact hstep.index
    · obtain ⟨h, hagrees, hbuilt⟩ := hstep.exists_index hapart
      exact ⟨h, ⟨k, hk, hagrees.trans hek⟩, hindex.trans hbuilt⟩
  · intro globals' hglobals'
    rcases hlayout globals' hglobals' with hfresh | ⟨globals, hglobals, hsame⟩
    · exact ⟨e.graph, hgraph.symm, hfresh⟩
    · obtain ⟨h, hagrees, hold⟩ := hstep.layout globals hglobals
      exact ⟨h, hagrees.trans hgraph.symm, hsame.trans hold⟩

/-- Where only cells are written nothing is out of step. -/
theorem InStep.withBanks (hstep : InStep graphs e) (banks : List Bank) :
    InStep graphs { e with banks } :=
  ⟨hstep.graph, hstep.index, hstep.layout⟩

theorem Ensured.layout (hensured : e.Ensured globals e') :
    globals.layout = e.freshLayout ∨
      ∃ before, e.cache.globals = some before ∧ globals.layout = before.layout := by
  cases hglobals : e.cache.globals with
  | none => exact .inl (hensured.fresh hglobals).1
  | some before => exact .inr ⟨before, rfl, by rw [(hensured.kept before hglobals).1]⟩

theorem InStep.ensured (hstep : InStep graphs e) (hapart : Graph.ToldApart graphs)
    (hensured : e.Ensured globals e') : InStep graphs e' := by
  refine hstep.transfer hapart ?_ (.inr hensured.index) ?_
  · rw [hensured.graph]
    exact .refl hstep.reachable
  · intro globals' hglobals'
    rw [hensured.installed] at hglobals'
    cases hglobals'
    rw [← hstep.freshLayout_eq hapart]
    exact hensured.layout

theorem InStep.counted (hstep : InStep graphs e) (hapart : Graph.ToldApart graphs)
    (stats : CacheStats) : InStep graphs (e.counted stats) := by
  refine hstep.transfer hapart ?_ (.inr rfl) fun globals' hglobals' =>
    .inr ⟨globals', hglobals', rfl⟩
  rw [counted_graph]
  exact .refl hstep.reachable

/-- What a compilation leaves in the backend and in the cache is of no account. -/
theorem InStep.compiled (hstep : InStep graphs e) (hapart : Graph.ToldApart graphs)
    (backend : Backend) {cache : Cache}
    (hcache : cache.globals = (e.cache.setBackend backend).globals) :
    InStep graphs { e with cache } := by
  refine hstep.transfer hapart (.refl hstep.reachable) (.inl rfl) ?_
  intro globals' hglobals'
  change cache.globals = some globals' at hglobals'
  rw [hcache] at hglobals'
  obtain ⟨globals, hglobals, rfl⟩ := Option.map_eq_some_iff.1 hglobals'
  exact .inr ⟨globals, hglobals, rfl⟩

theorem InStep.compile (hstep : InStep graphs e) (hapart : Graph.ToldApart graphs)
    (he : e.Coherent) (r : UnitRequest) : InStep graphs (e.compile r).2 := by
  have hasks := asks_compile he r
  generalize e.compile r = outcome at hasks ⊢
  obtain ⟨result, e'⟩ := outcome
  cases hasks with
  | refused _ => exact hstep
  | found _ _ => exact hstep.counted hapart _
  | failed _ _ ensured _ =>
      exact ((hstep.counted hapart _).ensured hapart ensured).compiled hapart _ rfl
  | built _ _ ensured _ =>
      exact ((hstep.counted hapart _).ensured hapart ensured).compiled hapart _ rfl

theorem InStep.dropped (hstep : InStep graphs e) (version : Version) :
    InStep graphs (e.invalidate version).2 := by
  refine ⟨hstep.graph, hstep.index, ?_⟩
  intro globals hglobals
  exact hstep.layout globals (Option.eq_some_of_filter_eq_some hglobals)

theorem InStep.setInput (hstep : InStep graphs e) (hapart : Graph.ToldApart graphs)
    (port : PortRef) (value : Value) : InStep graphs (e.setInput port value).2 := by
  rcases writeInput_cases e port value with ⟨err, hwrite⟩ | ⟨globals, cell, -, -, -, hwrite⟩
  · rw [setInput_of_refused hwrite]
    exact hstep
  · have hwritten : InStep graphs (e.putCell globals.bank cell.symbol value) :=
      hstep.withBanks _
    unfold Evaluator.setInput
    simp only [hwrite]
    split
    · exact hwritten
    · rename_i g hset
      exact hwritten.transfer hapart (Graph.agrees_setInputValue hwritten.reachable hset)
        (.inl rfl) fun globals' hglobals' => .inr ⟨globals', hglobals', rfl⟩

theorem InStep.replaceGraph (hstep : InStep graphs e) (hapart : Graph.ToldApart graphs)
    (he : e.Coherent) {g : Graph} (hg : g ∈ graphs) : InStep graphs (e.replaceGraph g).2 := by
  have hlisted : ∃ k ∈ graphs, g.remember.Agrees k :=
    ⟨g, hg, (hapart.reachable g hg).agrees_remember⟩
  by_cases hversion : g.version = e.version
  · obtain ⟨banks, hframe⟩ := replaceGraph_frame_of_eq he hversion
    have hagrees : g.remember.Agrees e.graph :=
      hapart.agrees_of_version hlisted hstep.graph hversion
    rw [hframe]
    exact hstep.transfer hapart hagrees (.inl rfl) fun globals' hglobals' =>
      .inr ⟨globals', hglobals', rfl⟩
  · rw [replaceGraph_of_ne hversion]
    refine ⟨hlisted, hstep.index, ?_⟩
    intro globals hglobals
    have hnone := he.invalidate_version.1
    change (e.cache.invalidate e.version).2.globals = some globals at hglobals
    rw [hnone] at hglobals
    contradiction

theorem InStep.step (hstep : InStep graphs e) (hapart : Graph.ToldApart graphs)
    (he : e.Coherent) {command : Command}
    (hlisted : ∀ g, command.graph? = some g → g ∈ graphs) : InStep graphs (e.step command) := by
  have hrefresh : InStep graphs e.refresh := by
    refine hstep.transfer hapart ?_ (.inr rfl) fun globals' hglobals' => ?_
    · rw [graph_refresh]
      exact .refl hstep.reachable
    · rw [cache_refresh] at hglobals'
      exact .inr ⟨globals', hglobals', rfl⟩
  cases command with
  | replaceGraph g => exact hstep.replaceGraph hapart he (hlisted g rfl)
  | markStale =>
      have hdropped := hstep.dropped e.version
      exact ⟨hdropped.graph, hdropped.index, hdropped.layout⟩
  | invalidate version => exact hstep.dropped version
  | index => exact hrefresh
  | ensureGlobals =>
      obtain ⟨globals, e', hensure, hensured⟩ := exists_ensured he
      rw [Evaluator.step, hensure]
      exact hstep.ensured hapart hensured
  | compile r => exact hstep.compile hapart he r
  | code r => exact hrefresh
  | writeInput port value =>
      rw [Evaluator.step]
      rcases writeInput_cases e port value with ⟨err, hwrite⟩ | ⟨globals, cell, -, -, -, hwrite⟩
      · rw [hwrite]
        exact hstep
      · rw [hwrite]
        exact hstep.withBanks _
  | setInput port value => exact hstep.setInput hapart port value
  | readInput port => exact hstep
  | syncInputs =>
      obtain ⟨banks, hframe⟩ := syncInputs_frame e
      rw [Evaluator.step, hframe]
      exact hstep.withBanks banks
  | invoke unit values => exact hstep
  | evaluate outputs =>
      rw [Evaluator.step, evaluate, snd_evaluateRequest]
      exact hstep.compile hapart he _
  | evaluateWith inputs values outputs =>
      rw [Evaluator.step, evaluateWith, snd_evaluateRequest]
      exact hstep.compile hapart he _

theorem inStep_new {g : Graph} (hg : g.Reachable) (hmem : g ∈ graphs) (options : Options) :
    InStep graphs (new g options) := by
  have hlisted : ∃ k ∈ graphs, g.remember.Agrees k := ⟨g, hmem, hg.agrees_remember⟩
  exact ⟨hlisted, ⟨g.remember, hlisted, rfl⟩, fun globals hglobals => by contradiction⟩

theorem InStep.after (hstep : InStep graphs e) (hapart : Graph.ToldApart graphs)
    (he : e.Coherent) {commands : List Command}
    (hlisted : ∀ command ∈ commands, ∀ g, command.graph? = some g → g ∈ graphs) :
    InStep graphs (e.after commands) := by
  induction commands generalizing e with
  | nil => exact hstep
  | cons command commands ih =>
      rw [List.forall_mem_cons] at hlisted
      exact ih (hstep.step hapart he hlisted.1) (Changes.coherent (changes_step he command) he)
        hlisted.2

/-- Graph, index and cells are in step in every state that is reached. -/
theorem inStep_after {g : Graph} {commands : List Command}
    (hapart : Graph.ToldApart (graphsOf g commands)) (options : Options) :
    InStep (graphsOf g commands) ((new g options).after commands) :=
  (inStep_new (hapart.reachable g List.mem_cons_self) List.mem_cons_self options).after hapart
    (coherent_new g options) fun _ hcommand _ hgraph => mem_graphsOf hcommand hgraph

end Evaluator

/-! ## A lone sum and an edit of it -/

namespace LoneSum

theorem reachable : graph.Reachable :=
  .addNode (g := .empty "lone sum") (.empty _)
    (show (Graph.empty "lone sum").addNode "sum" (.math .add .i32) = .ok (sum, graph) from rfl)

/-- The first summand is authored as seven. -/
def edited : Graph :=
  { graph with nodes := [sum.setInput "a" (.i32 7)] }

theorem edited_eq : graph.setInputValue ⟨"sum", "a"⟩ (.i32 7) = .ok edited := rfl

theorem edited_agrees : edited.Agrees graph := Graph.agrees_setInputValue reachable edited_eq

theorem toldApart : Graph.ToldApart [graph, edited] := by
  have hagrees : ∀ g ∈ [graph, edited], g.Agrees graph := by
    simp only [List.mem_cons, List.not_mem_nil, or_false, forall_eq_or_imp, forall_eq]
    exact ⟨.refl reachable, edited_agrees⟩
  refine ⟨fun g hg => (hagrees g hg).left, ?_⟩
  intro g hg h hh _
  exact ((hagrees g hg).trans (hagrees h hh).symm).same

end LoneSum

end Dataflow
