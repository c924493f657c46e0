import Dataflow.Proofs.Index.DataOrigins
import Dataflow.Proofs.Index.Orders
import Dataflow.Proofs.Unit.Planning
import Mathlib.Data.List.Sort

/-!
# The views of an index

Next to the data origins an index lists the inputs that an output feeds and the nodes that a node
reads from. All three come from one pass over the links. `Index.Views` says the last two by the
first, and `Index.views_build` that building an index makes them so, for every graph that editing
makes: with inputs fed by chains of reroutes, outputs that feed many inputs and nodes that read
themselves.
-/

namespace Dataflow

namespace Graph

variable {g : Graph} {target source : PortRef}

/-- An input of the node gets data from an output of the same node, through at least one
reroute. -/
def ReadsItself (g : Graph) (n : Node) : Prop :=
  ∃ input ∈ n.inputs, ∃ output ∈ n.outputs, ∃ r rs stop,
    g.Climbs (n.portRef input) (r :: rs) stop ∧ (⟨stop, n.portRef output⟩ : Link) ∈ g.links

/-- What has a data origin is an input of a computing node, fed by an output of a computing
node. -/
theorem HasOrigin.exists_ports (hg : g.WellFormed) (h : g.HasOrigin target source) :
    (∃ n ∈ g.nodes, n.isReroute = false ∧ ∃ p ∈ n.inputs, n.portRef p = target) ∧
      ∃ n ∈ g.nodes, n.isReroute = false ∧ ∃ p ∈ n.outputs, n.portRef p = source := by
  have htarget := h.1
  obtain ⟨rs, stop, -, -, hsource⟩ := (drawsFrom_iff_hasOrigin hg htarget).2 h
  obtain ⟨-, origin, hlink, -⟩ := h
  obtain ⟨-, sink, -, hport, -⟩ :=
    (hg.links_wellFormed _ (hg.linkOrigin?_eq_some_iff.1 hlink)).typed
  obtain ⟨n, hn, hsink⟩ := port_eq_ok_iff.1 hport
  obtain ⟨hmem, hname⟩ := node?_eq_some hn
  obtain ⟨hinput, hid⟩ := Node.port?_eq_some hsink
  refine ⟨⟨n, hmem, ?_, sink, hinput, ?_⟩, hsource⟩
  · by_contra hreroute
    rw [← hname] at htarget
    exact htarget (name_mem_rerouteNames hmem (by simpa using hreroute))
  · rw [Node.portRef, hname, hid]

/-- A node is linked to itself only through reroutes. -/
theorem WellFormed.readsItself_iff (hg : g.WellFormed) {n : Node} (hn : n ∈ g.nodes)
    (hcomputes : n.isReroute = false) : g.ReadsItself n ↔
      ∃ input ∈ n.inputs, ∃ source, g.HasOrigin (n.portRef input) source ∧
        source.node = n.name := by
  have hfree : ∀ p : Port, (n.portRef p).node ∉ g.rerouteNames := fun _ =>
    hg.not_mem_rerouteNames hn hcomputes
  constructor
  · rintro ⟨input, hinput, output, houtput, r, rs, stop, hclimb, hend⟩
    exact ⟨input, hinput, n.portRef output, (drawsFrom_iff_hasOrigin hg (hfree input)).1
      ⟨_, stop, hclimb, hend, n, hn, hcomputes, output, houtput, rfl⟩, rfl⟩
  · rintro ⟨input, hinput, source, horigin, hself⟩
    obtain ⟨rs, stop, hclimb, hend, m, hm, -, output, houtput, rfl⟩ :=
      (drawsFrom_iff_hasOrigin hg (hfree input)).2 horigin
    obtain rfl := eq_of_name_eq hg.names_nodup hm hn hself
    refine ⟨input, hinput, output, houtput, ?_⟩
    cases hclimb with
    | here => exact absurd rfl (hg.links_wellFormed _ hend).apart
    | through hr hreroute hout hlink hin hrest =>
        exact ⟨_, _, stop, .through hr hreroute hout hlink hin hrest, hend⟩

end Graph

namespace Index

/-- What the views of an index say about its graph. -/
structure Views (g : Graph) (ix : Index) : Prop where
  dataTargets_eq (output : PortRef) : ix.dataTargets output =
    (g.links.map Link.target).filter fun input => ix.dataOrigin? input == some output
  dataTargets_nodup (output : PortRef) : (ix.dataTargets output).Nodup
  mem_dataTargets_iff (output input : PortRef) :
    input ∈ ix.dataTargets output ↔ ix.dataOrigin? input = some output
  dataTargets_inputs {output input : PortRef} : input ∈ ix.dataTargets output →
    ∃ n ∈ g.nodes, n.isReroute = false ∧ ∃ p ∈ n.inputs, n.portRef p = input
  mem_dependencies_iff (reader name : String) : name ∈ ix.dependencies reader ↔
    ∃ n ∈ g.nodes, n.name = reader ∧ ∃ p ∈ n.inputs, ∃ source,
      ix.dataOrigin? (n.portRef p) = some source ∧ source.node = name
  dependencies_sorted (reader : String) : (ix.dependencies reader).Pairwise (· < ·)
  dependencies_compute {reader name : String} : name ∈ ix.dependencies reader →
    ∃ n ∈ g.nodes, n.name = name ∧ n.isReroute = false
  dependencies_unknown {reader : String} : (∀ n ∈ g.nodes, n.name ≠ reader) →
    ix.dependencies reader = []
  dependencies_reroute {n : Node} : n ∈ g.nodes → n.isReroute = true →
    ix.dependencies n.name = []
  nodes_eq : ix.nodes = g.nodes.map Node.name
  nodes_nodup : ix.nodes.Nodup
  edges_nodup : ix.edges.Nodup
  mem_edges_iff (reader name : String) : (reader, name) ∈ ix.edges ↔ name ∈ ix.dependencies reader
  edges_between {reader name : String} : (reader, name) ∈ ix.edges →
    reader ∈ ix.nodes ∧ name ∈ ix.nodes
  self_edge_iff (name : String) : (name, name) ∈ ix.edges ↔
    ∃ n ∈ g.nodes, n.name = name ∧ n.isReroute = false ∧ g.ReadsItself n

variable {g : Graph} {reader name : String} {output input : PortRef}

/-! ## Targets -/

theorem dataTargets_build (g : Graph) (output : PortRef) :
    (build g).dataTargets output =
      (g.links.map Link.target).filter fun input => g.resolve? input == some output := by
  unfold dataTargets build
  induction g.links with
  | nil => rfl
  | cons l links ih =>
      cases hresolve : g.resolve? l.target with
      | none =>
          simp only [List.filterMap_cons, hresolve, Option.map_none, List.map_cons,
            List.filter_cons]
          simpa using ih
      | some origin =>
          simp only [List.filterMap_cons, hresolve, Option.map_some, List.map_cons,
            List.filter_cons]
          by_cases horigin : origin = output
          · simpa [horigin] using ih
          · simpa [horigin] using ih

theorem mem_dataTargets_build : input ∈ (build g).dataTargets output ↔
    g.resolve? input = some output := by
  rw [dataTargets_build, List.mem_filter, beq_iff_eq, and_iff_right_iff_imp]
  intro hresolve
  obtain ⟨l, hl, rfl⟩ := Graph.exists_link_of_resolve? hresolve
  exact List.mem_map_of_mem hl

/-! ## Dependencies and edges -/

theorem mem_dependencies (ix : Index) :
    name ∈ ix.dependencies reader ↔ (reader, name) ∈ ix.edges := by
  simp [dependencies, successors]

theorem mem_edges_build (hg : g.WellFormed) : (reader, name) ∈ (build g).edges ↔
    ∃ n ∈ g.nodes, n.name = reader ∧ ∃ p ∈ n.inputs, ∃ source,
      g.HasOrigin (n.portRef p) source ∧ source.node = name := by
  rw [mem_edges_iff]
  constructor
  · rintro ⟨target, source, horigin, rfl, rfl⟩
    obtain ⟨⟨n, hn, -, p, hp, rfl⟩, -⟩ := horigin.exists_ports hg
    exact ⟨n, hn, rfl, p, hp, source, horigin, rfl⟩
  · rintro ⟨n, -, rfl, p, -, source, horigin, rfl⟩
    exact ⟨n.portRef p, source, horigin, rfl, rfl⟩

/-- The names that a node reads from come in order, each once. -/
theorem dependencies_pairwise_lt (ix : Index) (hedges : ix.edges.Nodup) (reader : String) :
    (ix.dependencies reader).Pairwise (· < ·) := by
  have hnodup : (ix.dependencies reader).Nodup := by
    refine (List.mergeSort_perm _ _).nodup_iff.2 ?_
    refine (hedges.filter _).map_on ?_
    rintro ⟨a, b⟩ hab ⟨c, d⟩ hcd rfl
    have ha := (List.mem_filter.1 hab).2
    have hc := (List.mem_filter.1 hcd).2
    rw [beq_iff_eq] at ha hc
    rw [show a = c from ha.trans hc.symm]
  have hsorted : (ix.dependencies reader).Pairwise (· ≤ ·) := by
    have htrans (a b c : String) (hab : decide (a ≤ b)) (hbc : decide (b ≤ c)) :
        decide (a ≤ c) := by
      rw [decide_eq_true_iff] at *
      exact hab.trans hbc
    have htotal (a b : String) : (decide (a ≤ b) || decide (b ≤ a)) = true := by
      simpa using le_total a b
    exact (List.pairwise_mergeSort htrans htotal (ix.successors reader)).imp of_decide_eq_true
  exact hsorted.imp₂ (fun _ _ => lt_of_le_of_ne) hnodup

/-- The views of a built index are exactly what the data origins of the graph make them. -/
theorem views_build (hg : g.Reachable) : Views g (build g) := by
  have hwell := hg.wellFormed
  have hnone : ∀ reader, (∀ n ∈ g.nodes, n.name = reader → n.isReroute = true) →
      (build g).dependencies reader = [] := by
    intro reader hreader
    rw [List.eq_nil_iff_forall_not_mem]
    intro name hname
    obtain ⟨target, source, horigin, rfl, -⟩ :=
      mem_edges_iff.1 ((mem_dependencies _).1 hname)
    obtain ⟨⟨n, hn, hcomputes, p, -, rfl⟩, -⟩ := horigin.exists_ports hwell
    rw [hreader n hn rfl] at hcomputes
    contradiction
  constructor
  case dataTargets_eq =>
    intro output
    simp only [dataTargets_build, dataOrigin?_build]
  case dataTargets_nodup =>
    intro output
    rw [dataTargets_build]
    exact hwell.targets_nodup.filter _
  case mem_dataTargets_iff =>
    intro output input
    rw [mem_dataTargets_build, dataOrigin?_build]
  case dataTargets_inputs =>
    intro output input hinput
    exact ((Graph.resolve?_eq_some_iff.1 (mem_dataTargets_build.1 hinput)).exists_ports hwell).1
  case mem_dependencies_iff =>
    intro reader name
    simp only [mem_dependencies, mem_edges_build hwell, dataOrigin?_build,
      Graph.resolve?_eq_some_iff]
  case dependencies_sorted => exact dependencies_pairwise_lt _ (edges_build_nodup g)
  case dependencies_compute =>
    intro reader name hname
    obtain ⟨target, source, horigin, -, rfl⟩ :=
      mem_edges_iff.1 ((mem_dependencies _).1 hname)
    obtain ⟨-, n, hn, hcomputes, p, -, rfl⟩ := horigin.exists_ports hwell
    exact ⟨n, hn, rfl, hcomputes⟩
  case dependencies_unknown => exact fun hunknown => hnone _ fun n hn h => absurd h (hunknown n hn)
  case dependencies_reroute =>
    intro n hn hreroute
    refine hnone _ fun m hm hname => ?_
    rwa [Graph.eq_of_name_eq hwell.names_nodup hm hn hname]
  case nodes_eq => rfl
  case nodes_nodup => exact hwell.names_nodup
  case edges_nodup => exact edges_build_nodup g
  case mem_edges_iff => exact fun reader name => (mem_dependencies _).symm
  case edges_between =>
    intro reader name hedge
    obtain ⟨target, source, horigin, rfl, rfl⟩ := mem_edges_iff.1 hedge
    obtain ⟨⟨m, hm, -, p, -, rfl⟩, n, hn, -, q, -, rfl⟩ := horigin.exists_ports hwell
    exact ⟨List.mem_map_of_mem hm, List.mem_map_of_mem hn⟩
  case self_edge_iff =>
    intro name
    rw [mem_edges_build hwell]
    constructor
    · rintro ⟨n, hn, rfl, p, hp, source, horigin, hself⟩
      have hcomputes : n.isReroute = false := by
        by_contra hreroute
        exact horigin.1 (Graph.name_mem_rerouteNames hn (by simpa using hreroute))
      exact ⟨n, hn, rfl, hcomputes,
        (hwell.readsItself_iff hn hcomputes).2 ⟨p, hp, source, horigin, hself⟩⟩
    · rintro ⟨n, hn, rfl, hcomputes, hreads⟩
      obtain ⟨p, hp, source, horigin, hself⟩ := (hwell.readsItself_iff hn hcomputes).1 hreads
      exact ⟨n, hn, rfl, p, hp, source, horigin, hself⟩

end Index

/-! ## A clamp that bounds itself

One output feeds two inputs of the clamp, whose third input gets the result of the clamp back
through a reroute. The links to the two inputs do not stand next to each other.
-/

namespace FannedClamp

def source : Node := ⟨"source", .constant (.i32 7), [], [⟨"value", .i32, none⟩]⟩

def relay : Node :=
  ⟨"relay", .reroute .i32, [⟨"input", .i32, some (.i32 0)⟩], [⟨"output", .i32, none⟩]⟩

def clamp : Node where
  name := "clamp"
  kind := .clamp .i32
  inputs :=
    [⟨"value", .i32, some (.i32 0)⟩, ⟨"min", .i32, some (.i32 0)⟩, ⟨"max", .i32, some (.i32 0)⟩]
  outputs := [⟨"result", .i32, none⟩]

def graph : Graph where
  name := "fanned clamp"
  nodes := [source, relay, clamp]
  links :=
    [ ⟨⟨"clamp", "min"⟩, ⟨"source", "value"⟩⟩,
      ⟨⟨"relay", "input"⟩, ⟨"clamp", "result"⟩⟩,
      ⟨⟨"clamp", "max"⟩, ⟨"relay", "output"⟩⟩,
      ⟨⟨"clamp", "value"⟩, ⟨"source", "value"⟩⟩ ]
  token := none

theorem reachable : graph.Reachable := by
  have h₁ : Graph.Reachable ⟨"fanned clamp", [source], [], none⟩ :=
    .addNode (.empty _) (show (Graph.empty "fanned clamp").addNode "source" source.kind =
      .ok (source, _) from rfl)
  have h₂ := Graph.Reachable.addNode h₁
    (show Graph.addNode _ "relay" (.reroute .i32) = .ok (relay, _) from rfl)
  have h₃ := Graph.Reachable.addNode h₂
    (show Graph.addNode _ "clamp" (.clamp .i32) = .ok (clamp, _) from rfl)
  have h₄ := Graph.Reachable.link h₃
    (show Graph.link _ ⟨"source", "value"⟩ ⟨"clamp", "min"⟩ = .ok (none, _) from rfl)
  have h₅ := Graph.Reachable.link h₄
    (show Graph.link _ ⟨"clamp", "result"⟩ ⟨"relay", "input"⟩ = .ok (none, _) from rfl)
  have h₆ := Graph.Reachable.link h₅
    (show Graph.link _ ⟨"relay", "output"⟩ ⟨"clamp", "max"⟩ = .ok (none, _) from rfl)
  exact .link h₆
    (show Graph.link _ ⟨"source", "value"⟩ ⟨"clamp", "value"⟩ = .ok (none, _) from rfl)

theorem views_build_fannedClamp : graph.Reachable ∧
    (Index.build graph).dataOrigin? ⟨"clamp", "min"⟩ = some ⟨"source", "value"⟩ ∧
    (Index.build graph).dataTargets ⟨"source", "value"⟩ =
      [⟨"clamp", "min"⟩, ⟨"clamp", "value"⟩] ∧
    (Index.build graph).edges = [("clamp", "source"), ("clamp", "clamp")] ∧
    "clamp" ∈ (Index.build graph).dependencies "clamp" ∧
    (Index.build graph).dependencies "relay" = [] ∧
    (Index.build graph).dependencies "absent" = [] ∧
    graph.ReadsItself clamp := by
  have hviews := Index.views_build reachable
  have htargets : (Index.build graph).dataTargets ⟨"source", "value"⟩ =
      [⟨"clamp", "min"⟩, ⟨"clamp", "value"⟩] := by decide +kernel
  have hself : ("clamp", "clamp") ∈ (Index.build graph).edges := by decide +kernel
  refine ⟨reachable, ?_, htargets, by decide +kernel, (hviews.mem_edges_iff _ _).1 hself,
    hviews.dependencies_reroute (n := relay) (by decide) rfl,
    hviews.dependencies_unknown (by decide), ?_⟩
  · exact (hviews.mem_dataTargets_iff _ _).1 (by rw [htargets]; exact List.mem_cons_self)
  · obtain ⟨n, hn, hname, -, hreads⟩ := (hviews.self_edge_iff "clamp").1 hself
    have hclamp : n = clamp :=
      Graph.eq_of_name_eq reachable.wellFormed.names_nodup hn (by decide) hname
    exact hclamp ▸ hreads

end FannedClamp

end Dataflow
