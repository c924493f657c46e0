import Dataflow.Proofs.Unit.Planning

/-!
# The nodes that are evaluated, and when

Listing the nodes from some roots on takes in what the roots depend on and no more, each node once,
and each dependency before its consumer unless both lie on one cycle. This holds for every order of
the edges: `evaluationOrder_schedules`.
-/

namespace Dataflow

open Relation

/-- The first node depends on the second one, and its value is not supplied from outside. -/
def Index.Follows (ix : Index) (bound : List String) (a b : String) : Prop :=
  a ∉ bound ∧ (a, b) ∈ ix.edges

namespace Graph

/-- The list holds what the roots depend on, in an order in which it can be evaluated as far as
the dependencies allow for one. -/
structure Schedules (g : Graph) (bound roots : List String) (order : List Node) : Prop where
  nodup : order.Nodup
  mem_iff : ∀ n, n ∈ order ↔ n ∈ g.nodes ∧
    ∃ root ∈ roots, ReflTransGen ((Index.build g).Follows bound) root n.name
  computes : (∀ root ∈ roots, root ∉ g.rerouteNames) → ∀ n ∈ order, n.isReroute = false
  earlier_or_cyclic : ∀ a ∈ order, ∀ b ∈ order, (Index.build g).Follows bound a.name b.name →
    order.idxOf b < order.idxOf a ∨ TransGen ((Index.build g).Follows bound) a.name b.name ∧
      TransGen ((Index.build g).Follows bound) b.name a.name
  inTurn_of_acyclic : (∀ n ∈ order, ¬ TransGen ((Index.build g).Follows bound) n.name n.name) →
    InTurn (fun earlier n => ∀ name, (Index.build g).Follows bound n.name name →
      name ∈ earlier.map Node.name) [] order

end Graph

/-! ## Dependencies -/

variable {g : Graph} {bound roots : List String}

theorem Schedule.mem_needs_iff {edges : List (String × String)} {a b : String} :
    b ∈ needs edges bound a ↔ a ∉ bound ∧ (a, b) ∈ edges := by
  unfold needs
  by_cases hbound : a ∈ bound
  · rw [if_pos (List.contains_iff_mem.2 hbound)]
    simp [hbound]
  · rw [if_neg (by simpa using hbound)]
    simp [hbound]

theorem Schedule.step_needs_of_perm (bound : List String) {edges : List (String × String)}
    (hedges : edges.Perm (Index.build g).edges) :
    Step (needs edges bound) = (Index.build g).Follows bound := by
  funext a b
  refine propext (mem_needs_iff.trans ?_)
  rw [hedges.mem_iff]
  rfl

namespace Index

theorem Follows.mem_nodes {a b : String} (hg : g.WellFormed)
    (h : (Index.build g).Follows bound a b) : b ∈ g.nodes.map Node.name := by
  obtain ⟨target, source, horigin, -, rfl⟩ := mem_edges_iff.1 h.2
  obtain ⟨ty, houtput⟩ := horigin.hasOutput hg
  exact houtput.node_mem

/-- Dependencies go through reroutes, not to them. -/
theorem Follows.not_reroute {a b : String} (h : (Index.build g).Follows bound a b) :
    b ∉ g.rerouteNames := by
  obtain ⟨target, source, ⟨-, origin, -, hchain⟩, -, rfl⟩ := mem_edges_iff.1 h.2
  exact hchain.not_reroute

theorem not_reroute_of_follows {a b : String} (ha : a ∉ g.rerouteNames)
    (h : ReflTransGen ((Index.build g).Follows bound) a b) : b ∉ g.rerouteNames := by
  rcases ReflTransGen.cases_tail h with rfl | ⟨_, -, hlast⟩
  · exact ha
  · exact hlast.not_reroute

end Index

/-! ## Positions in a list -/

/-- What stands before an entry of a list without repeats comes earlier in it. -/
theorem idxOf_lt_of_mem {α : Type} [DecidableEq α] {before after : List α} {a b : α}
    (hnodup : (before ++ a :: after).Nodup) (hb : b ∈ before) :
    (before ++ a :: after).idxOf b < (before ++ a :: after).idxOf a := by
  have hapart : a ∉ before := fun ha =>
    (List.nodup_append.1 hnodup).2.2 a ha a List.mem_cons_self rfl
  calc (before ++ a :: after).idxOf b = before.idxOf b := List.idxOf_append_of_mem hb
    _ < before.length := List.idxOf_lt_length_of_mem hb
    _ = (before ++ a :: after).idxOf a := by
        rw [List.idxOf_append_of_notMem hapart, List.idxOf_cons_self, Nat.add_zero]

/-! ## The order -/

/-- Each node comes after the nodes it depends on, apart from those that depend on it in turn. -/
def Graph.InOrder (g : Graph) (bound : List String) (order : List Node) : Prop :=
  InTurn (fun earlier n => ∀ name, (Index.build g).Follows bound n.name name →
    name ∈ earlier.map Node.name ∨
      ReflTransGen ((Index.build g).Follows bound) name n.name) [] order

/-- The order lists what the roots depend on, each node once and in turn. -/
theorem exists_inOrder (hg : g.WellFormed) {edges : List (String × String)}
    (hedges : edges.Perm (Index.build g).edges) (bound : List String) {roots : List String}
    (hroots : ∀ root ∈ roots, root ∈ g.nodes.map Node.name) :
    ∃ order, evaluationOrder g { Index.build g with edges } bound roots = .ok order ∧
      (order.map Node.name).Nodup ∧ g.InOrder bound order ∧
      ∀ name, name ∈ order.map Node.name ↔
        ∃ root ∈ roots, ReflTransGen ((Index.build g).Follows bound) root name := by
  have hix : ({ Index.build g with edges } : Index).nodes = g.nodes.map Node.name := rfl
  obtain ⟨order, horder, hnames⟩ := exists_evaluationOrder_of_nodes hix hg bound hroots
  have hstep := Schedule.step_needs_of_perm bound hedges
  have hneeds : ∀ n, ∀ m ∈ Schedule.needs edges bound n, m ∈ g.nodes.map Node.name := by
    intro n m hm
    have hfollows : Schedule.Step (Schedule.needs edges bound) n m := hm
    rw [hstep] at hfollows
    exact hfollows.mem_nodes hg
  have hinTurn := Schedule.visit_inTurn hg.names_nodup hroots hneeds
  rw [← hnames] at hinTurn
  have hturns := (@InTurn.map_iff _ _ _ _ [] _).1 hinTurn
  refine ⟨order, horder, ?_, hturns.mono ?_, fun name => ?_⟩
  · rw [hnames]
    exact Schedule.nodup_visit List.nodup_nil roots
  · intro earlier n _ hsuits name hfollows
    rw [← hstep] at hfollows ⊢
    exact hsuits name hfollows
  · rw [hnames, Schedule.mem_visit_iff hg.names_nodup hroots hneeds, hstep]

namespace Graph.InOrder

variable {order : List Node} (h : g.InOrder bound order)
include h

theorem idxOf_lt_or_cyclic (hnames : (order.map Node.name).Nodup) {a b : Node} (ha : a ∈ order)
    (hb : b ∈ order) (hfollows : (Index.build g).Follows bound a.name b.name) :
    order.idxOf b < order.idxOf a ∨ TransGen ((Index.build g).Follows bound) a.name b.name ∧
      TransGen ((Index.build g).Follows bound) b.name a.name := by
  obtain ⟨before, after, rfl⟩ := List.append_of_mem ha
  rcases h.of_split b.name hfollows with hearlier | hback
  · obtain ⟨m, hm, hname⟩ := List.mem_map.1 hearlier
    obtain rfl := List.inj_on_of_nodup_map hnames (List.mem_append_left _ hm) hb hname
    exact .inl (idxOf_lt_of_mem (List.Nodup.of_map _ hnames) hm)
  · refine .inr ⟨.single hfollows, ?_⟩
    rcases reflTransGen_iff_eq_or_transGen.1 hback with hself | hback
    · rw [← hself] at hfollows ⊢
      exact .single hfollows
    · exact hback

theorem inTurn_of_acyclic
    (hacyclic : ∀ n ∈ order, ¬ TransGen ((Index.build g).Follows bound) n.name n.name) :
    InTurn (fun earlier n => ∀ name, (Index.build g).Follows bound n.name name →
      name ∈ earlier.map Node.name) [] order := by
  refine h.mono ?_
  intro earlier n hn hsuits name hfollows
  refine (hsuits name hfollows).resolve_right fun hback => ?_
  exact hacyclic n hn (.head' hfollows hback)

end Graph.InOrder

/-- Whatever the order of the edges, the nodes are evaluated by schedule. -/
theorem evaluationOrder_schedules (hg : g.Reachable) {edges : List (String × String)}
    (hedges : edges.Perm (Index.build g).edges) (bound : List String) {roots : List String}
    (hroots : ∀ root ∈ roots, root ∈ g.nodes.map Node.name) :
    ∃ order, evaluationOrder g { Index.build g with edges } bound roots = .ok order ∧
      g.Schedules bound roots order := by
  have hwell := hg.wellFormed
  obtain ⟨order, horder, hnames, hturns, hreach⟩ := exists_inOrder hwell hedges bound hroots
  have hnodes : ∀ n ∈ order, n ∈ g.nodes := evaluationOrder_eq_ok horder
  refine ⟨order, horder, .of_map _ hnames, fun n => ?_, ?_,
    fun a ha b hb => hturns.idxOf_lt_or_cyclic hnames ha hb, hturns.inTurn_of_acyclic⟩
  · rw [← hreach]
    refine ⟨fun hn => ⟨hnodes n hn, List.mem_map_of_mem hn⟩, ?_⟩
    rintro ⟨hn, hname⟩
    obtain ⟨m, hm, hsame⟩ := List.mem_map.1 hname
    rwa [← Graph.eq_of_name_eq hwell.names_nodup (hnodes m hm) hn hsame]
  · intro hcomputing n hn
    obtain ⟨root, hroot, hdepends⟩ := (hreach n.name).1 (List.mem_map_of_mem hn)
    by_contra hreroute
    exact Index.not_reroute_of_follows (hcomputing root hroot) hdepends
      (Graph.name_mem_rerouteNames (hnodes n hn) (by simpa using hreroute))

/-! ## A loop that is fed from outside

Two sums add up each other's results, and one of them also adds a constant.
-/

namespace FedLoop

def source : Node := ⟨"source", .constant (.i32 7), [], [⟨"value", .i32, none⟩]⟩

def sum (name : String) : Node :=
  ⟨name, .math .add .i32, [⟨"a", .i32, some (.i32 0)⟩, ⟨"b", .i32, some (.i32 0)⟩],
    [⟨"result", .i32, none⟩]⟩

def graph : Graph where
  name := "fed loop"
  nodes := [source, sum "left", sum "right"]
  links :=
    [ ⟨⟨"left", "a"⟩, ⟨"right", "result"⟩⟩,
      ⟨⟨"right", "a"⟩, ⟨"left", "result"⟩⟩,
      ⟨⟨"right", "b"⟩, ⟨"source", "value"⟩⟩ ]
  token := none

theorem reachable : graph.Reachable := by
  have h₁ : Graph.Reachable ⟨"fed loop", [source], [], none⟩ :=
    .addNode (.empty _) (show (Graph.empty "fed loop").addNode "source" source.kind =
      .ok (source, _) from rfl)
  have h₂ := Graph.Reachable.addNode h₁
    (show Graph.addNode _ "left" (.math .add .i32) = .ok (sum "left", _) from rfl)
  have h₃ := Graph.Reachable.addNode h₂
    (show Graph.addNode _ "right" (.math .add .i32) = .ok (sum "right", _) from rfl)
  have h₄ := Graph.Reachable.link h₃
    (show Graph.link _ ⟨"right", "result"⟩ ⟨"left", "a"⟩ = .ok (none, _) from rfl)
  have h₅ := Graph.Reachable.link h₄
    (show Graph.link _ ⟨"left", "result"⟩ ⟨"right", "a"⟩ = .ok (none, _) from rfl)
  exact .link h₅ (show Graph.link _ ⟨"source", "value"⟩ ⟨"right", "b"⟩ = .ok (none, _) from rfl)

theorem edges_eq : (Index.build graph).edges =
    [("left", "right"), ("right", "left"), ("right", "source")] := by decide +kernel

theorem follows_iff {a b : String} : (Index.build graph).Follows [] a b ↔
    (a, b) ∈ [("left", "right"), ("right", "left"), ("right", "source")] := by
  rw [Index.Follows, edges_eq]
  simp

theorem evaluationOrder_schedules_fedLoop : graph.Reachable ∧
    [("right", "source"), ("left", "right"), ("right", "left")].Perm (Index.build graph).edges ∧
    (∀ root ∈ ["right", "right"], root ∈ graph.nodes.map Node.name) ∧
    ∃ order, evaluationOrder graph { Index.build graph with
        edges := [("right", "source"), ("left", "right"), ("right", "left")] } []
        ["right", "right"] = .ok order ∧
      (∀ n, n ∈ order ↔ n ∈ graph.nodes) ∧ order.idxOf source < order.idxOf (sum "right") := by
  have hedges : [("right", "source"), ("left", "right"), ("right", "left")].Perm
      (Index.build graph).edges := by
    rw [edges_eq]
    decide
  have hroots : ∀ root ∈ ["right", "right"], root ∈ graph.nodes.map Node.name := by decide
  obtain ⟨order, horder, hschedule⟩ := evaluationOrder_schedules reachable hedges [] hroots
  have hsource := follows_iff.2 (show ("right", "source") ∈ _ by decide)
  have hleft := follows_iff.2 (show ("right", "left") ∈ _ by decide)
  have hmem : ∀ n, n ∈ order ↔ n ∈ graph.nodes := by
    intro n
    rw [hschedule.mem_iff]
    refine ⟨And.left, fun hn => ⟨hn, "right", by decide, ?_⟩⟩
    simp only [graph, List.mem_cons, List.not_mem_nil, or_false] at hn
    rcases hn with rfl | rfl | rfl
    · exact .single hsource
    · exact .single hleft
    · exact .refl
  refine ⟨reachable, hedges, hroots, order, horder, hmem, ?_⟩
  refine (hschedule.earlier_or_cyclic (sum "right") ((hmem _).2 (by decide)) source
    ((hmem _).2 (by decide)) hsource).resolve_right ?_
  -- the constant depends on nothing
  rintro ⟨-, hback⟩
  obtain ⟨name, hfollows, -⟩ := TransGen.head'_iff.1 hback
  simpa [source] using follows_iff.1 hfollows

end FedLoop

end Dataflow
