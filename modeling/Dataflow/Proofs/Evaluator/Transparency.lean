import Dataflow.Proofs.Backend.AlikeUnits
import Dataflow.Proofs.Evaluator.Compiling
import Dataflow.Proofs.Evaluator.HeldUnits

/-!
# Reroutes are transparent

An index lists the dependencies in an order of its own, and two evaluators need not agree on it.
`Evaluator.newListing` is a new evaluator with any order of them. What it answers to a request is
what the unit of the request makes of the first contents of the cells, so alike graphs get the same
answers under any two orders: `Evaluator.evaluateRequest_of_alike`. In particular the order has no
effect on the answers of one graph, and a reroute can be put into any link without an answer
changing: `Evaluator.evaluateRequest_newListing_congr` and `Evaluator.reroutes_transparent`.
-/

namespace Dataflow

open Ir

/-- The request names no port of the node. -/
def UnitRequest.Avoids (r : UnitRequest) (name : String) : Prop :=
  ∀ port ∈ r.outputs ++ r.graphInputs, port.node ≠ name

namespace Evaluator

/-! ## Answers of new evaluators -/

/-- A new evaluator whose index lists the dependencies like this. -/
def newListing (g : Graph) (options : Options) (edges : List (String × String)) : Evaluator :=
  { new g options with index := (Index.build g.remember).listing edges }

theorem index_refresh_newListing (g : Graph) (options : Options) (edges : List (String × String)) :
    (newListing g options edges).refresh.index = (Index.build g.remember).listing edges := by
  have hversion : (newListing g options edges).index.version =
      (newListing g options edges).version := rfl
  unfold refresh
  rw [hversion, bne_self_eq_false, Bool.or_false]
  rfl

/-- A new evaluator answers with what the unit of the request makes of the first contents of
the cells. -/
theorem evaluateRequest_newListing_eq_ok_iff {g : Graph} {options : Options}
    {edges : List (String × String)} {r : UnitRequest} {values vs : List Value} :
    ((newListing g options edges).evaluateRequest r values).1 = .ok vs ↔
      r.outputs ≠ [] ∧ ∃ unit b, (Backend.start options g.remember).build g.remember
          ((Index.build g.remember).listing edges) g.remember.layout r = (.ok unit, b) ∧
        (CompiledUnit.ofGenerated unit 0).invoke
          (Backend.initialBank g.remember.layout.cells) values = .ok vs := by
  by_cases hr : r.outputs = []
  · rw [evaluateRequest, compile_of_empty hr]
    simp [hr]
  · obtain ⟨b, hglobals⟩ := Backend.exists_compileGlobals options g.remember
      ((Index.build g.remember).listing edges)
    have hstart : Backend.start options g.remember = b := congrArg Prod.snd hglobals
    obtain ⟨stats, hcompile⟩ := compile_of_missing hr
      (show (newListing g options edges).cache.find? _ r = none from rfl)
    have hindex : ((newListing g options edges).counted stats).refresh.index =
        (Index.build g.remember).listing edges := by
      rw [refresh_counted, counted_index, index_refresh_newListing]
    obtain ⟨e₁, hensure, hgraph₁, hindex₁, -, hbanks₁⟩ := ensureGlobals_of_uninstalled
      (e := (newListing g options edges).counted stats) rfl hindex
      (by rw [counted_graph, counted_options]; exact hglobals)
    rw [counted_graph, counted_banks] at hensure
    rw [counted_graph] at hgraph₁
    rw [counted_banks] at hbanks₁
    rw [evaluateRequest, hcompile, hstart]
    unfold compileNew
    simp only [hensure, hgraph₁, hindex₁]
    change _ ↔ r.outputs ≠ [] ∧ ∃ unit b', b.build (newListing g options edges).graph
      ((Index.build g.remember).listing edges) (StorageLayout.build
        (newListing g options edges).graph ((Index.build g.remember).listing edges)) r =
          (.ok unit, b') ∧ _
    cases hbuild : b.build (newListing g options edges).graph
        ((Index.build g.remember).listing edges) (StorageLayout.build
          (newListing g options edges).graph ((Index.build g.remember).listing edges)) r with
    | mk result b' =>
        cases result with
        | error err => simp
        | ok unit =>
            have hversion : unit.version = g.remember.version := (Backend.unit_of_build hbuild).1
            have hbank : e₁.banks[0]?.getD [] =
                Backend.initialBank g.remember.layout.cells := by
              rw [hbanks₁]
              rfl
            simp only [ne_eq, hr, not_false_eq_true, true_and, Prod.mk.injEq, Except.ok.injEq]
            rw [invoke_of_version hversion, ← hbank]
            constructor
            · intro hinvoke
              exact ⟨unit, b', ⟨rfl, rfl⟩, hinvoke⟩
            · rintro ⟨_, _, ⟨rfl, rfl⟩, hinvoke⟩
              exact hinvoke

theorem evaluateRequest_new_eq_ok_iff {g : Graph} {options : Options} {r : UnitRequest}
    {values vs : List Value} :
    ((new g options).evaluateRequest r values).1 = .ok vs ↔
      r.outputs ≠ [] ∧ ∃ unit b, (Backend.start options g.remember).build g.remember
          (Index.build g.remember) g.remember.layout r = (.ok unit, b) ∧
        (CompiledUnit.ofGenerated unit 0).invoke
          (Backend.initialBank g.remember.layout.cells) values = .ok vs :=
  @evaluateRequest_newListing_eq_ok_iff g options (Index.build g.remember).edges r values vs

/-! ## Answers of alike graphs -/

section

variable {g : Graph} (hg : g.Reachable) {options : Options} {edges : List (String × String)}
  (hedges : edges.Perm (Index.build g).edges) {r : UnitRequest} {values vs : List Value}

include hg hedges

/-- The order of the dependencies stands for an order of the links. -/
theorem exists_links_answers : ∃ links : List Link, links.Perm g.links ∧
    ∀ (options : Options) (r : UnitRequest) (values vs : List Value),
      ((newListing g options edges).evaluateRequest r values).1 = .ok vs ↔
        r.outputs ≠ [] ∧ (g.withLinks links).Answers options r values vs := by
  rw [← Graph.edges_remember hg] at hedges
  obtain ⟨links, hlinks, hgenerate⟩ := Graph.exists_generate_listing hg.remember hedges
  refine ⟨links, hlinks, fun options r values vs => ?_⟩
  have hcells : (g.withLinks links).layout.cells = g.remember.layout.cells :=
    (Graph.withLinks_alike hg.remember hlinks).cells_eq
  rw [evaluateRequest_newListing_eq_ok_iff, Backend.build_congr (hgenerate _ r), ← hcells,
    ← Backend.start_congr hcells]
  rfl

/-- Evaluators of alike graphs give the same answers, whatever the orders of their dependencies. -/
theorem evaluateRequest_of_alike {h : Graph} (hh : h.Reachable) {hidden : String → Prop}
    (hgh : g.Alike hidden h) (hcells : g.layout.Unreserved) {edges' : List (String × String)}
    (hedges' : edges'.Perm (Index.build h).edges)
    (hr : ∀ port ∈ r.outputs ++ r.graphInputs, ¬ hidden port.node)
    (hok : ((newListing g options edges).evaluateRequest r values).1 = .ok vs) :
    ((newListing h options edges').evaluateRequest r values).1 = .ok vs := by
  obtain ⟨links, hlinks, hiff⟩ := exists_links_answers hg hedges
  obtain ⟨links', hlinks', hiff'⟩ := exists_links_answers hh hedges'
  have hleft := Graph.alike_withLinks hg hlinks hgh.leftHidden
  have hright := Graph.alike_withLinks hh hlinks' hgh.rightHidden
  obtain ⟨houtputs, hanswers⟩ := (hiff options r values vs).1 hok
  refine (hiff' options r values vs).2 ⟨houtputs, ?_⟩
  exact (hleft.symm.trans (hgh.trans hright)).answers hr (hleft.unreserved hcells) hanswers

/-- The order of the dependencies has no effect on the answers. -/
theorem evaluateRequest_newListing_congr (hcells : g.layout.Unreserved)
    {edges' : List (String × String)} (hedges' : edges'.Perm (Index.build g).edges) :
    ((newListing g options edges').evaluateRequest r values).1 = .ok vs ↔
      ((newListing g options edges).evaluateRequest r values).1 = .ok vs := by
  have halike : g.Alike (fun _ => False) g :=
    (Graph.withLinks_alike hg (.refl _)).symm.trans (Graph.withLinks_alike hg (.refl _))
  constructor
  · exact evaluateRequest_of_alike hg hedges' hg halike hcells hedges fun _ _ => not_false
  · exact evaluateRequest_of_alike hg hedges hg halike hcells hedges' fun _ _ => not_false

end

end Evaluator

/-! ## Reroutes -/

/-- A reroute can be put into any link. The data of every input then comes from the same output,
the cells are the same, and every request that names no port of the new reroute is answered with
the same values by new evaluators, or refused by both, in whatever orders their indexes list the
dependencies. -/
theorem Evaluator.reroutes_transparent {g : Graph} (hg : g.Reachable)
    (hnames : ∀ n ∈ g.nodes, ¬ "nodejit".toList <+: (Symbol.sanitize n.name).toList) {l : Link}
    (hl : l ∈ g.links) {name : String} (hfresh : name ∉ g.nodes.map Node.name) :
    ∃ g', g.interpose l name = .ok g' ∧
      (∀ target, (Index.build g').dataOrigin? target = (Index.build g).dataOrigin? target) ∧
      g'.layout.cells = g.layout.cells ∧
      ∀ edges edges' : List (String × String), edges.Perm (Index.build g).edges →
        edges'.Perm (Index.build g').edges →
        ∀ (options : Options) (r : UnitRequest) (values : List Value), r.Avoids name →
          ∀ vs, ((newListing g' options edges').evaluateRequest r values).1 = .ok vs ↔
            ((newListing g options edges).evaluateRequest r values).1 = .ok vs := by
  obtain ⟨g', hinterpose, hg', hinterposed⟩ := hg.exists_interposed hl hfresh
  refine ⟨g', hinterpose, hinterposed.dataOrigin?_eq, hinterposed.cells_eq, ?_⟩
  intro edges edges' hedges hedges' options r values hr vs
  have hcells := Graph.unreserved_layout hnames
  constructor
  · exact evaluateRequest_of_alike hg' hedges' hg hinterposed.alike.symm
      (hinterposed.alike.unreserved hcells) hedges hr
  · exact evaluateRequest_of_alike hg hedges hg' hinterposed.alike hcells hedges' hr

namespace RelayedSum

/-- A second reroute behind the first one. -/
theorem reroutes_transparent_relayedSum :
    ∃ g', graph.interpose ⟨⟨"sum", "a"⟩, ⟨"relay", "output"⟩⟩ "detour" = .ok g' ∧
      (Index.build g').dataOrigin? ⟨"sum", "a"⟩ = some ⟨"source", "x"⟩ ∧
      g'.layout.cells = graph.layout.cells ∧
      ∀ edges', edges'.Perm (Index.build g').edges → ∀ options values vs,
        ((Evaluator.newListing g' options edges').evaluateRequest request values).1 = .ok vs ↔
          ((Evaluator.newListing graph options [("sum", "source")]).evaluateRequest request
            values).1 = .ok vs := by
  obtain ⟨g', hinterpose, horigins, hcells, hanswers⟩ := Evaluator.reroutes_transparent reachable
    (show ∀ n ∈ graph.nodes, ¬ "nodejit".toList <+: (Symbol.sanitize n.name).toList by decide)
    (show ⟨⟨"sum", "a"⟩, ⟨"relay", "output"⟩⟩ ∈ graph.links by decide)
    (show "detour" ∉ graph.nodes.map Node.name by decide)
  have horigin : (Index.build graph).dataOrigin? ⟨"sum", "a"⟩ = some ⟨"source", "x"⟩ := by
    decide +kernel
  have hedges : [("sum", "source")].Perm (Index.build graph).edges := by
    rw [show (Index.build graph).edges = [("sum", "source")] by decide +kernel]
  have hrequest : request.Avoids "detour" := by
    unfold UnitRequest.Avoids
    decide
  refine ⟨g', hinterpose, (horigins _).trans horigin, hcells, ?_⟩
  intro edges' hedges' options values vs
  exact hanswers _ edges' hedges hedges' options request values hrequest vs

end RelayedSum

end Dataflow
