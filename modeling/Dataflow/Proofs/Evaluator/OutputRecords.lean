import Dataflow.Proofs.Backend.Independence
import Dataflow.Proofs.Evaluator.HeldUnits
import Dataflow.Proofs.Unit.OutputStores

/-!
# Output records of compiled requests

`Evaluator.filledBy_iff_answersTyped`: a unit that an evaluator hands out fills its output record
with values of the right types exactly when every requested output has the type of the port that
answers for it, and then no store leaves its field. Nothing else ties the two types together: the
field is laid out for the requested output, the value comes from the far end of the reroutes.
-/

namespace Dataflow

open Ir

/-! ## What the cache holds -/

/-- The unit was built for the graph by a backend that checks the types of code. -/
def CompiledUnit.BuiltFor (u : CompiledUnit) (g : Graph) : Prop :=
  ∃ (b b' : Backend) (generated : GeneratedUnit) (bank : Nat), b.verify = true ∧
    b.build g (Index.build g) g.layout u.request = (.ok generated, b') ∧
    u = .ofGenerated generated bank

theorem Backend.verify_build (b : Backend) (g : Graph) (ix : Index) (storage : StorageLayout)
    (r : UnitRequest) : (b.build g ix storage r).2.verify = b.verify := by
  have hgenerate : (b.generate g ix storage r).2.verify = b.verify := by
    unfold generate
    simp only
    split <;> rfl
  unfold build
  split
  · rename_i hrun
    rw [hrun] at hgenerate
    exact hgenerate
  · rename_i unit b₁ hrun
    rw [hrun] at hgenerate
    obtain ⟨defined, hframe, -⟩ := compileUnit_frame b₁ unit
    have hcompile : (b₁.compileUnit unit).2.verify = b.verify := by
      rw [hframe]
      exact hgenerate
    split
    · rename_i hrun'
      rw [hrun'] at hcompile
      exact hcompile
    · rename_i hrun'
      rw [hrun'] at hcompile
      exact hcompile

namespace Evaluator

variable {e : Evaluator} {g : Graph} {r : UnitRequest}

/-- The evaluator checks the types of code, and all it has compiled belongs to the graph. -/
structure Serves (e : Evaluator) (g : Graph) : Prop where
  graph : e.graph = g
  index : e.index = Index.build g
  verify : e.options.verify = true
  globals : ∀ globals, e.cache.globals = some globals →
    globals.layout = g.layout ∧ globals.backend.verify = true
  units : ∀ entry ∈ e.cache.units, entry.2.request = entry.1.2 ∧ entry.2.BuiltFor g

theorem serves_new (g : Graph) {options : Options} (h : options.verify = true) :
    (new g options).Serves g.remember where
  graph := rfl
  index := rfl
  verify := h
  globals := fun _ hglobals => by contradiction
  units := fun _ hentry => by contradiction

theorem Serves.refresh (h : e.Serves g) : e.refresh.Serves g := by
  unfold Evaluator.refresh
  split
  · exact { h with index := congrArg Index.build h.graph }
  · exact h

theorem Serves.counted (h : e.Serves g) (stats : CacheStats) : (e.counted stats).Serves g := by
  have hrefresh := h.refresh
  exact ⟨hrefresh.graph, hrefresh.index, hrefresh.verify, h.globals, h.units⟩

theorem Serves.ensureGlobals (h : e.Serves g) :
    e.ensureGlobals.2.Serves g ∧ ∀ globals, e.ensureGlobals.1 = .ok globals →
      globals.layout = g.layout ∧ globals.backend.verify = true := by
  have hrefresh := h.refresh
  unfold Evaluator.ensureGlobals
  simp only
  generalize e.refresh = e₁ at hrefresh
  split
  · rename_i globals hfound
    refine ⟨hrefresh, ?_⟩
    rintro _ ⟨⟩
    exact hrefresh.globals globals (Option.filter_eq_some_iff.1 hfound).1
  · have hlayout : StorageLayout.build e₁.graph e₁.index = g.layout := by
      rw [hrefresh.graph, hrefresh.index]
      rfl
    split
    · exact ⟨hrefresh, fun _ hok => by contradiction⟩
    · rename_i bank backend hcompile
      have hbackend : backend.verify = true := by
        have hkept := congrArg (fun outcome => outcome.2.verify) hcompile
        exact hkept.symm.trans hrefresh.verify
      refine ⟨{ hrefresh with globals := ?_ }, ?_⟩
      · rintro _ ⟨⟩
        exact ⟨hlayout, hbackend⟩
      · rintro _ ⟨⟩
        exact ⟨hlayout, hbackend⟩

theorem Serves.compileNew (h : e.Serves g) (r : UnitRequest) :
    (e.compileNew r).2.Serves g ∧ ∀ unit, (e.compileNew r).1 = .ok unit →
      unit.request = r ∧ unit.BuiltFor g := by
  obtain ⟨hensured, hglobals⟩ := h.ensureGlobals
  unfold Evaluator.compileNew
  cases hensure : e.ensureGlobals with
  | mk result e₁ =>
      rw [hensure] at hensured hglobals
      cases result with
      | error err => exact ⟨hensured, fun _ hok => by contradiction⟩
      | ok globals =>
          obtain ⟨hlayout, hverify⟩ := hglobals globals rfl
          have hkept := globals.backend.verify_build e₁.graph e₁.index globals.layout r
          simp only
          cases hbuild : globals.backend.build e₁.graph e₁.index globals.layout r with
          | mk result backend =>
              rw [hbuild] at hkept
              rw [hensured.graph, hensured.index, hlayout] at hbuild
              have hgrown : Serves { e₁ with cache := e₁.cache.setBackend backend } g := by
                refine { hensured with globals := ?_ }
                intro found hfound
                obtain ⟨before, hbefore, rfl⟩ := Option.map_eq_some_iff.1 hfound
                exact ⟨(hensured.globals before hbefore).1, hkept.trans hverify⟩
              cases result with
              | error err => exact ⟨hgrown, fun _ hok => by contradiction⟩
              | ok generated =>
                  have hrequest := (Backend.unit_of_build hbuild).2.1
                  have hbuilt : (CompiledUnit.ofGenerated generated globals.bank).BuiltFor g := by
                    refine ⟨globals.backend, backend, generated, globals.bank, hverify, ?_, rfl⟩
                    change globals.backend.build g _ _ generated.request = _
                    rw [hrequest]
                    exact hbuild
                  refine ⟨{ hgrown with units := ?_ }, ?_⟩
                  · intro entry hentry
                    rcases List.mem_cons.1 hentry with rfl | hentry
                    · exact ⟨rfl, hbuilt⟩
                    · exact hgrown.units entry (List.mem_filter.1 hentry).1
                  · rintro _ ⟨⟩
                    exact ⟨hrequest, hbuilt⟩

/-- A request is answered with a unit built for the graph, from the cache or not. -/
theorem Serves.compile (h : e.Serves g) (r : UnitRequest) :
    (e.compile r).2.Serves g ∧ ∀ unit, (e.compile r).1 = .ok unit →
      unit.request = r ∧ unit.BuiltFor g := by
  by_cases hempty : r.outputs = []
  · rw [compile_of_empty hempty]
    exact ⟨h, fun _ hok => by contradiction⟩
  · cases hfind : e.cache.find? e.version r with
    | some unit =>
        obtain ⟨stats, hcompile⟩ := compile_of_cached hempty hfind
        rw [hcompile]
        refine ⟨h.counted stats, ?_⟩
        rintro _ ⟨⟩
        exact h.units _ (mem_of_find? hfind)
    | none =>
        obtain ⟨stats, hcompile⟩ := compile_of_missing hempty hfind
        rw [hcompile]
        exact (h.counted stats).compileNew r

theorem Serves.after (h : e.Serves g) (requests : List UnitRequest) :
    (e.after (requests.map .compile)).Serves g := by
  induction requests generalizing e with
  | nil => exact h
  | cons r requests ih => exact ih (h.compile r).1

end Evaluator

/-! ## Chains of a graph and of its remembered form -/

namespace Graph

variable {g g' : Graph} {count : Nat} {port source : PortRef} {r : UnitRequest}

theorem LeadsIn.congr (hnodes : g'.nodes = g.nodes) (hlinks : g'.links = g.links)
    (h : g.LeadsIn count port source) : g'.LeadsIn count port source := by
  have hnames : g'.rerouteNames = g.rerouteNames := by
    unfold rerouteNames
    rw [hnodes]
  have horigins : g'.rerouteOrigin? = g.rerouteOrigin? := by
    funext name
    unfold rerouteOrigin? node? linkOrigin?
    rw [hnodes, hlinks]
  induction h with
  | here hport => exact .here (hnames ▸ hport)
  | up hreroute horigin _ ih => exact .up (hnames ▸ hreroute) (horigins ▸ horigin) ih

theorem answersTyped_remember : g.remember.AnswersTyped r ↔ g.AnswersTyped r := by
  constructor
  · rintro h port hport source ty ⟨count, hsource⟩
    exact h port hport source ty ⟨count, .congr (g := g) rfl rfl hsource⟩
  · rintro h port hport source ty ⟨count, hsource⟩
    exact h port hport source ty ⟨count, .congr (g := g.remember) rfl rfl hsource⟩

/-- The type given with a source is that of the source. -/
theorem answersTyped_iff_resolveOutput (h : ∀ port ∈ r.outputs, g.HasNativeOutput port) :
    g.AnswersTyped r ↔ ∀ port ∈ r.outputs, ∀ source ty,
      resolveOutput g (Index.build g) port = .ok (source, ty) → g.HasOutput source ty := by
  constructor
  · intro htyped port hport source ty hresolve
    obtain ⟨houtput, -, hsource⟩ := resolveOutput_eq_ok_iff.1 hresolve
    exact htyped port hport source ty hsource houtput
  · intro htyped port hport source ty hsource houtput
    obtain ⟨ty', houtput', hnative⟩ := h port hport
    rw [houtput'.unique houtput] at hnative
    exact htyped port hport source ty (resolveOutput_eq_ok_iff.2 ⟨houtput, hnative, hsource⟩)

end Graph

/-! ## Records -/

/-- The entry function of a unit has passed its check and fills the output record with values of
the right types exactly when the requested outputs have the types of their sources. -/
theorem CompiledUnit.BuiltFor.filledBy_iff {u : CompiledUnit} {g : Graph} (hg : g.WellFormed)
    (h : u.BuiltFor g) :
    g.Offers u.request ∧ u.outputLayout.Packed ∧
      ∃ f, (u.functions.find? fun f => f.id == u.entry) = some f ∧ f.wellTyped = true ∧
        (u.outputLayout.FilledBy f ↔ g.AnswersTyped u.request) := by
  obtain ⟨b, b', generated, bank, hverify, hbuild, hu⟩ := h
  obtain ⟨b₁, hgenerate, hcompile⟩ := Backend.build_eq_ok hbuild
  obtain ⟨hrun, hb₁⟩ := Backend.generate_eq_ok hgenerate
  obtain ⟨plan, nodes, entry, t₁, hplan, hnodes, hentry, hgenerated⟩ := generateUnit_eq_ok hrun
  obtain ⟨hnodup, hchecked, -⟩ := Backend.compileUnit_eq_ok hcompile
  have hparts := UnitPlan.make_eq_ok_iff.1 hplan
  have hlayout : u.outputLayout = plan.outputLayout := by
    rw [hu, hgenerated]
    rfl
  have hmem : entry ∈ generated.functions := by
    rw [hgenerated]
    exact List.mem_append_right _ (List.mem_singleton.2 rfl)
  have hid : u.entry = entry.id := by
    rw [hu, hgenerated]
    rfl
  have hfunctions : u.functions = generated.functions := by
    rw [hu]
    rfl
  refine ⟨hparts.offers hg, ?_, entry, ?_, ?_, ?_⟩
  · rw [hlayout]
    exact (RecordLayout.ofTypes_eq_ok (RecordLayout.forPorts_eq_ok hparts.outputLayout)).1
  · rw [hid, hfunctions]
    exact find?_id hnodup hmem
  · refine hchecked ?_ entry hmem
    rw [hb₁]
    exact hverify
  · rw [hlayout]
    exact hparts.filledBy_iff hg rfl hentry

/-- Whatever was requested before, a unit fills its output record with values of the right types
exactly when each requested output has the type of the port that answers for it. This is so
wherever reroutes hand on the type of their input, and it keeps every store inside its field. -/
theorem Evaluator.filledBy_iff_answersTyped {g : Graph} (hg : g.Reachable) {options : Options}
    (hverify : options.verify = true) (requests : List UnitRequest) {r : UnitRequest}
    {unit : CompiledUnit} {e : Evaluator}
    (hcompile : ((new g options).after (requests.map .compile)).compile r = (.ok unit, e)) :
    ∃ f, (unit.functions.find? fun f => f.id == unit.entry) = some f ∧ f.wellTyped = true ∧
      (unit.outputLayout.FilledBy f ↔ g.AnswersTyped r) ∧
      (g.AnswersTyped r ↔ ∀ port ∈ r.outputs, ∀ source ty,
        resolveOutput g (Index.build g) port = .ok (source, ty) → g.HasOutput source ty) ∧
      (g.ReroutesTyped → g.AnswersTyped r) ∧
      (unit.outputLayout.FilledBy f → unit.outputLayout.Contains f.stores) := by
  have hserves := (serves_new g hverify).after requests
  have hunit := (hserves.compile r).2
  rw [hcompile] at hunit
  obtain ⟨hrequest, hbuilt⟩ := hunit unit rfl
  obtain ⟨hoffers, hpacked, f, hfind, htyped, hfilled⟩ :=
    hbuilt.filledBy_iff hg.remember.wellFormed
  rw [hrequest] at hoffers hfilled
  rw [Graph.answersTyped_remember] at hfilled
  exact ⟨f, hfind, htyped, hfilled,
    Graph.answersTyped_iff_resolveOutput fun port hport => (hoffers.outputs port hport).1,
    fun hreroutes => Graph.answersTyped_of_reroutesTyped hg.wellFormed hreroutes r,
    fun h => h.contains hpacked⟩

/-! ## A reroute to a narrower type

A host kind calls itself a reroute, takes an integer and has a truth value as its output. The
record is laid out for the truth value, and the integer is stored to it.
-/

namespace Narrowed

def source : Node := ⟨"k", .constant (.i32 256), [], [⟨"value", .i32, none⟩]⟩

def relay : Node where
  name := "relay"
  kind := .host ⟨"relay", [⟨"in", .i32⟩], [⟨"out", .bool⟩], true, none, .pick [0]⟩
  inputs := [⟨"in", .i32, some (.i32 0)⟩]
  outputs := [⟨"out", .bool, none⟩]

def graph : Graph where
  name := "narrowed"
  nodes := [source, relay]
  links := [⟨⟨"relay", "in"⟩, ⟨"k", "value"⟩⟩]
  token := none

def request : UnitRequest := ⟨[⟨"relay", "out"⟩], []⟩

def plan : UnitPlan where
  version := graph.remember.version
  outputs := [(⟨"k", "value"⟩, .bool)]
  outputLayout := ⟨[⟨.bool, 0⟩], 1, 1⟩
  bindings := ⟨[]⟩
  inputLayout := ⟨[], 0, 1⟩
  order := [source]

theorem reachable : graph.Reachable := by
  have h₁ : Graph.Reachable ⟨"narrowed", [source], [], none⟩ :=
    .addNode (.empty _) (show (Graph.empty "narrowed").addNode "k" source.kind =
      .ok (source, _) from rfl)
  have h₂ : Graph.Reachable ⟨"narrowed", [source, relay], [], none⟩ :=
    .addNode h₁ (show Graph.addNode _ "relay" relay.kind = .ok (relay, _) from rfl)
  exact .link h₂ (show Graph.link _ ⟨"k", "value"⟩ ⟨"relay", "in"⟩ = .ok (none, _) from rfl)

theorem order_eq : evaluationOrder graph.remember (Index.build graph.remember) [] ["k"] =
    .ok [source] := by
  have hedges : (Index.build graph.remember).edges = [] := by decide +kernel
  have hnodes : (Index.build graph.remember).nodes = ["k", "relay"] := by decide +kernel
  have hnode : ∀ name, graph.remember.node? name = graph.node? name := fun _ => rfl
  simp only [evaluationOrder, scheduleRoots, Index.contains, hedges, Schedule.needs_nil, hnodes,
    hnode, ← Option.not_isSome]
  generalize graph.remember.version = version
  cbv

theorem plan_made : UnitPlan.make graph.remember (Index.build graph.remember)
    graph.remember.layout request = .ok plan := by
  refine UnitPlan.make_of_parts rfl (by decide) ?_ (by decide) ?_ (by decide) order_eq
  · decide +kernel
  · decide +kernel

theorem cells_compiled : (Backend.new {}).compileGlobals graph.remember.layout =
    (.ok [], Backend.new {}) := by
  decide +kernel

/-- What becomes of the unit: the code is checked, an integer goes to a record of one byte, and
what is read there is wrong. -/
theorem built : ∃ unit b f, (Backend.new {}).build graph.remember (Index.build graph.remember)
      graph.remember.layout request = (.ok unit, b) ∧
    (unit.functions.find? fun f => f.id == unit.entry) = some f ∧
    f.wellTyped = true ∧ f.stores = [⟨some .i32, 1, 0⟩] ∧
    unit.outputLayout = ⟨[⟨.bool, 0⟩], 1, 1⟩ ∧
    (CompiledUnit.ofGenerated unit 0).invoke [] [] = .ok [.bool false] := by
  have hbuild : ((Backend.new {}).build graph.remember (Index.build graph.remember)
      graph.remember.layout request).1.map (fun unit =>
        ((unit.functions.find? fun f => f.id == unit.entry).map fun f =>
          (f.wellTyped, f.stores), unit.outputLayout,
          (CompiledUnit.ofGenerated unit 0).invoke [] [])) =
      .ok (some (true, [⟨some .i32, 1, 0⟩]), ⟨[⟨.bool, 0⟩], 1, 1⟩, .ok [.bool false]) := by
    simp only [Backend.build, Backend.generate, generateUnit, plan_made]
    decide +kernel
  generalize (Backend.new {}).build graph.remember (Index.build graph.remember)
    graph.remember.layout request = outcome at hbuild ⊢
  obtain ⟨result, b⟩ := outcome
  cases result with
  | error err => contradiction
  | ok unit =>
      obtain ⟨hentry, hrest⟩ := Prod.mk.inj (Except.ok.inj hbuild)
      obtain ⟨hlayout, hinvoke⟩ := Prod.mk.inj hrest
      obtain ⟨f, hfind, hf⟩ := Option.map_eq_some_iff.1 hentry
      obtain ⟨htyped, hstores⟩ := Prod.mk.inj hf
      exact ⟨unit, b, f, rfl, hfind, htyped, hstores, hlayout, hinvoke⟩

open Evaluator

theorem compiled : ∃ unit e f, (new graph {}).compile request = (.ok unit, e) ∧
    (unit.functions.find? fun f => f.id == unit.entry) = some f ∧
    f.wellTyped = true ∧ f.stores = [⟨some .i32, 1, 0⟩] ∧
    unit.outputLayout = ⟨[⟨.bool, 0⟩], 1, 1⟩ ∧
    ((new graph {}).evaluateRequest request []).1 = .ok [.bool false] := by
  obtain ⟨generated, b, f, hbuild, hfind, htyped, hstores, hlayout, hinvoke⟩ := built
  obtain ⟨e, hcompile, hgraph, -, hbanks⟩ := compile_of_uninstalled (coherent_new graph {}) rfl
    (by decide) (index_refresh_of_built rfl) cells_compiled hbuild
  refine ⟨_, e, f, hcompile, hfind, htyped, hstores, hlayout, ?_⟩
  have hcurrent : generated.version = e.version := by
    rw [version, hgraph]
    exact (Backend.unit_of_build hbuild).1
  have hbank : e.bank 0 = [] := by
    unfold Evaluator.bank
    rw [hbanks]
    rfl
  unfold evaluateRequest
  rw [hcompile]
  change e.invoke (.ofGenerated generated 0) [] = _
  rw [invoke_of_version hcurrent]
  change CompiledUnit.invoke _ (e.bank 0) [] = _
  rw [hbank]
  exact hinvoke

theorem leadsTo_source : graph.LeadsTo ⟨"relay", "out"⟩ ⟨"k", "value"⟩ :=
  ⟨1, .up (by decide) rfl (.here (by decide))⟩

theorem not_answersTyped : ¬ graph.AnswersTyped request := by
  intro h
  have hsource := h _ (List.mem_singleton.2 rfl) _ .bool leadsTo_source
    ⟨⟨"out", .bool, none⟩, rfl, rfl⟩
  cases hsource.unique ⟨⟨"value", .i32, none⟩, rfl, rfl⟩

theorem filledBy_iff_answersTyped_narrowed : ∃ unit e f, graph.Reachable ∧
    (new graph {}).compile request = (.ok unit, e) ∧
    (unit.functions.find? fun f => f.id == unit.entry) = some f ∧ f.wellTyped = true ∧
    ¬ graph.AnswersTyped request ∧ ¬ unit.outputLayout.FilledBy f := by
  obtain ⟨unit, e, _, hcompile, -⟩ := compiled
  obtain ⟨f, hfind, htyped, hfilled, -⟩ :=
    @filledBy_iff_answersTyped graph reachable {} rfl [] request unit e hcompile
  exact ⟨unit, e, f, reachable, hcompile, hfind, htyped, not_answersTyped,
    fun h => not_answersTyped (hfilled.1 h)⟩

/-- The entry function passes its check, stores four bytes to a record of one, and the value 256
is read back as false. -/
theorem overruns_record : graph.Reachable ∧ ∃ unit e f,
    (new graph {}).compile request = (.ok unit, e) ∧
    (unit.functions.find? fun f => f.id == unit.entry) = some f ∧ f.wellTyped = true ∧
    ¬ unit.outputLayout.FilledBy f ∧ ¬ unit.outputLayout.Contains f.stores ∧
    ((new graph {}).evaluateRequest request []).1 = .ok [.bool false] := by
  obtain ⟨unit, e, f, hcompile, hfind, htyped, hstores, hlayout, hevaluate⟩ := compiled
  refine ⟨reachable, unit, e, f, hcompile, hfind, htyped, ?_, ?_, hevaluate⟩
  · unfold RecordLayout.FilledBy
    rw [hstores, hlayout]
    decide
  · intro hcontains
    rw [hstores, hlayout] at hcontains
    obtain ⟨hinside, -⟩ := hcontains 0 ⟨some .i32, 1, 0⟩ 3 rfl ⟨.i32, rfl, by decide, by decide⟩
    exact absurd hinside (by decide)

end Narrowed

end Dataflow
