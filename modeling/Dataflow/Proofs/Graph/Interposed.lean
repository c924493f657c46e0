import Dataflow.Proofs.Graph.Structure
import Dataflow.Proofs.Index.Chains
import Dataflow.Proofs.Storage.Cells

/-!
# Reroutes put into links

A reroute of the right type can be put into any link: the link then leads to the reroute, and
the reroute takes its place at the old target. Chains pass through the new reroute as if the
link were still there, so data has the same origins (`Graph.Interposed.resolve?_eq`), and the
cells are the same.
-/

namespace Dataflow

namespace Graph

/-- Puts a new reroute into a link. -/
def interpose (g : Graph) (l : Link) (name : String) : Except GraphError Graph := do
  let source ← g.port l.origin .output
  let (_, g) ← g.addNode name (.reroute source.dataType)
  let (_, g) ← g.link l.origin ⟨name, "input"⟩
  let (_, g) ← g.link ⟨name, "output"⟩ l.target
  return g

/-- The reroute that is put in. -/
def relay (name : String) (ty : DataType) : Node where
  name
  kind := .reroute ty
  inputs := [Port.ofSpec .input ⟨"input", ty⟩]
  outputs := [Port.ofSpec .output ⟨"output", ty⟩]

/-- The second graph is the first one with a new reroute in one of its links. -/
structure Interposed (g : Graph) (l : Link) (name : String) (g' : Graph) : Prop where
  wellFormed : g.WellFormed
  wellFormed' : g'.WellFormed
  mem : l ∈ g.links
  fresh : name ∉ g.nodes.map Node.name
  nodes : ∃ ty, g'.nodes = g.nodes ++ [relay name ty]
  origins : ∀ target, g'.linkOrigin? target =
    if target = l.target then some ⟨name, "output"⟩
    else if target = ⟨name, "input"⟩ then some l.origin
    else g.linkOrigin? target

/-! ## Links that are put in -/

theorem findOrigin?_insertLink (link : Link) (links : List Link) (target : PortRef) :
    findOrigin? (insertLink link links) target =
      if target = link.target then some link.origin else findOrigin? links target := by
  unfold findOrigin?
  induction links with
  | nil =>
      by_cases h : target = link.target
      · simp [insertLink, h]
      · simp [insertLink, h, Ne.symm h]
  | cons l ls ih =>
      unfold insertLink
      split
      · rename_i hl
        by_cases h : target = link.target
        · simp [h]
        · simp [h, Ne.symm h, hl]
      · rename_i hl
        by_cases h : l.target = target
        · have hne : target ≠ link.target := h ▸ hl
          simp [h, hne]
        · rw [List.find?_cons_of_neg (by simpa using h), List.find?_cons_of_neg (by simpa using h),
            ih]

variable {g g' : Graph} {l : Link} {name : String}

/-! ## Nodes that are put in -/

theorem node?_append_of_ne {n : Node} (hnodes : g'.nodes = g.nodes ++ [n]) {other : String}
    (hne : other ≠ n.name) : g'.node? other = g.node? other := by
  unfold node?
  rw [hnodes, List.find?_append, List.find?_cons_of_neg (by simpa using Ne.symm hne)]
  simp

theorem node?_append_self {n : Node} (hnodes : g'.nodes = g.nodes ++ [n])
    (hfresh : n.name ∉ g.nodes.map Node.name) : g'.node? n.name = some n := by
  have hnone : (g.nodes.find? fun m => m.name == n.name) = none := by
    rw [List.find?_eq_none]
    intro m hm hname
    exact hfresh (List.mem_map.2 ⟨m, hm, by simpa using hname⟩)
  unfold node?
  rw [hnodes, List.find?_append, hnone]
  simp

theorem port_append_of_ne {n : Node} (hnodes : g'.nodes = g.nodes ++ [n]) {ref : PortRef}
    (hne : ref.node ≠ n.name) (role : PortRole) : g'.port ref role = g.port ref role := by
  unfold port
  rw [node?_append_of_ne hnodes hne]

theorem node_mem_of_port {ref : PortRef} {role : PortRole} {p : Port}
    (hp : g.port ref role = .ok p) : ref.node ∈ g.nodes.map Node.name := by
  obtain ⟨n, hn, -⟩ := port_eq_ok_iff.1 hp
  exact node?_isSome_iff.1 (Option.isSome_iff_exists.2 ⟨n, hn⟩)

/-! ## A reroute can be put into every link -/

/-- The graph with the reroute and these links. -/
def withRelay (g : Graph) (name : String) (ty : DataType) (links : List Link) : Graph :=
  ⟨g.name, g.nodes ++ [relay name ty], links, none⟩

/-- The links with the reroute in one of them. -/
def relayedLinks (g : Graph) (l : Link) (name : String) : List Link :=
  insertLink ⟨l.target, ⟨name, "output"⟩⟩ (insertLink ⟨⟨name, "input"⟩, l.origin⟩ g.links)

section

variable (hfresh : name ∉ g.nodes.map Node.name) (ty : DataType) (links : List Link)

include hfresh

theorem addNode_relay :
    g.addNode name (.reroute ty) = .ok (relay name ty, g.withRelay name ty g.links) := by
  have hnone : ¬ (g.node? name).isSome = true := fun hsome => hfresh (node?_isSome_iff.1 hsome)
  unfold addNode
  rw [if_neg hnone]
  rfl

theorem port_relay_input : (g.withRelay name ty links).port ⟨name, "input"⟩ .input =
    .ok (Port.ofSpec .input ⟨"input", ty⟩) :=
  port_eq_ok_iff.2 ⟨_, node?_append_self (n := relay name ty) rfl hfresh, rfl⟩

theorem port_relay_output : (g.withRelay name ty links).port ⟨name, "output"⟩ .output =
    .ok (Port.ofSpec .output ⟨"output", ty⟩) :=
  port_eq_ok_iff.2 ⟨_, node?_append_self (n := relay name ty) rfl hfresh, rfl⟩

theorem port_withRelay {ref : PortRef} {role : PortRole} {p : Port}
    (hp : g.port ref role = .ok p) : (g.withRelay name ty links).port ref role = .ok p := by
  have hne : ref.node ≠ name := fun h => hfresh (h ▸ node_mem_of_port hp)
  rw [port_append_of_ne (g := g) (n := relay name ty) rfl hne, hp]

end

theorem link_of_typed {origin target : PortRef} {source sink : Port}
    (hsource : g.port origin .output = .ok source) (hsink : g.port target .input = .ok sink)
    (htype : source.dataType = sink.dataType) (hapart : origin.node ≠ target.node) :
    g.link origin target = .ok (g.linkOrigin? target,
      { g with links := insertLink ⟨target, origin⟩ g.links, token := none }) := by
  unfold link
  simp only [hsource, hsink, htype, hapart, bind, Except.bind, ne_eq, not_true_eq_false, if_false]
  rfl

theorem Reachable.interpose (hg : g.Reachable) (hfresh : name ∉ g.nodes.map Node.name)
    {source sink : Port} (hsource : g.port l.origin .output = .ok source)
    (hsink : g.port l.target .input = .ok sink) (htype : source.dataType = sink.dataType) :
    g.interpose l name = .ok (g.withRelay name source.dataType (g.relayedLinks l name)) ∧
      (g.withRelay name source.dataType (g.relayedLinks l name)).Reachable := by
  have horigin : l.origin.node ≠ name := fun h => hfresh (h ▸ node_mem_of_port hsource)
  have htarget : l.target.node ≠ name := fun h => hfresh (h ▸ node_mem_of_port hsink)
  have hadd := addNode_relay hfresh source.dataType
  have hlink : (g.withRelay name source.dataType g.links).link l.origin ⟨name, "input"⟩ =
      .ok (_, g.withRelay name source.dataType
        (insertLink ⟨⟨name, "input"⟩, l.origin⟩ g.links)) :=
    link_of_typed (port_withRelay hfresh source.dataType _ hsource)
      (port_relay_input hfresh source.dataType g.links) rfl horigin
  have hrelink := link_of_typed
    (port_relay_output hfresh source.dataType (insertLink ⟨⟨name, "input"⟩, l.origin⟩ g.links))
    (port_withRelay hfresh source.dataType _ hsink) htype htarget.symm
  refine ⟨?_, ((hg.addNode hadd).link hlink).link hrelink⟩
  unfold Graph.interpose
  simp only [hsource, bind, Except.bind, hadd, hlink, hrelink]
  rfl

theorem WellFormed.interposed (hg : g.WellFormed) (hl : l ∈ g.links)
    (hfresh : name ∉ g.nodes.map Node.name) {ty : DataType}
    (hg' : (g.withRelay name ty (g.relayedLinks l name)).WellFormed) :
    g.Interposed l name (g.withRelay name ty (g.relayedLinks l name)) := by
  refine ⟨hg, hg', hl, hfresh, ⟨ty, rfl⟩, fun target => ?_⟩
  change findOrigin? (g.relayedLinks l name) target = _
  rw [relayedLinks, findOrigin?_insertLink, findOrigin?_insertLink]
  rfl

/-- A reroute can be put into every link of a graph, under every name that is not taken. -/
theorem Reachable.exists_interposed (hg : g.Reachable) (hl : l ∈ g.links)
    (hfresh : name ∉ g.nodes.map Node.name) :
    ∃ g', g.interpose l name = .ok g' ∧ g'.Reachable ∧ g.Interposed l name g' := by
  obtain ⟨source, sink, hsource, hsink, htype⟩ := (hg.wellFormed.links_wellFormed l hl).typed
  obtain ⟨hinterpose, hreachable⟩ := hg.interpose hfresh hsource hsink htype
  exact ⟨_, hinterpose, hreachable, hg.wellFormed.interposed hl hfresh hreachable.wellFormed⟩

/-! ## Chains pass through it -/

namespace Interposed

variable {port origin source target : PortRef} {count : Nat} (h : g.Interposed l name g')

include h

theorem node?_of_ne {other : String} (hne : other ≠ name) : g'.node? other = g.node? other := by
  obtain ⟨ty, hnodes⟩ := h.nodes
  exact node?_append_of_ne hnodes hne

theorem rerouteNames_eq : g'.rerouteNames = g.rerouteNames ++ [name] := by
  obtain ⟨ty, hnodes⟩ := h.nodes
  have hrelay : (relay name ty).isReroute = true := rfl
  unfold rerouteNames
  rw [hnodes, List.filter_append, List.map_append, List.filter_cons_of_pos hrelay]
  rfl

theorem mem_rerouteNames_iff {other : String} (hne : other ≠ name) :
    other ∈ g'.rerouteNames ↔ other ∈ g.rerouteNames := by
  rw [h.rerouteNames_eq]
  simp [hne]

/-- No link of the graph leads to or from the new reroute. -/
theorem link_ne {k : Link} (hk : k ∈ g.links) : k.origin.node ≠ name ∧ k.target.node ≠ name := by
  obtain ⟨source, sink, hsource, hsink, -⟩ := (h.wellFormed.links_wellFormed k hk).typed
  exact ⟨fun hname => h.fresh (hname ▸ node_mem_of_port hsource),
    fun hname => h.fresh (hname ▸ node_mem_of_port hsink)⟩

theorem linkOrigin?_ne (hlink : g.linkOrigin? target = some origin) :
    origin.node ≠ name ∧ target.node ≠ name := by
  obtain ⟨k, hk, rfl, rfl⟩ := linkOrigin?_eq_some hlink
  exact h.link_ne hk

theorem linkOrigin?_target : g.linkOrigin? l.target = some l.origin :=
  linkOrigin?_of_mem h.wellFormed.targets_nodup h.mem

/-- The new reroute leads on to where the link came from. -/
theorem rerouteOrigin?_self : g'.rerouteOrigin? name = some l.origin := by
  obtain ⟨ty, hnodes⟩ := h.nodes
  have hne : (⟨name, "input"⟩ : PortRef) ≠ l.target := by
    intro heq
    exact (h.link_ne h.mem).2 (heq ▸ rfl)
  have hrelay : g'.node? name = some (relay name ty) :=
    node?_append_self (n := relay name ty) hnodes h.fresh
  unfold rerouteOrigin?
  rw [hrelay]
  change g'.linkOrigin? ⟨name, "input"⟩ = _
  rw [h.origins, if_neg hne, if_pos rfl]

/-- The other reroutes lead to the new one where they led along the link, and to where they
led before otherwise. -/
theorem rerouteOrigin?_of_ne {other : String} (hne : other ≠ name) :
    g'.rerouteOrigin? other = g.rerouteOrigin? other ∨
      g.rerouteOrigin? other = some l.origin ∧
        g'.rerouteOrigin? other = some ⟨name, "output"⟩ := by
  unfold rerouteOrigin?
  rw [h.node?_of_ne hne]
  cases hn : g.node? other with
  | none => exact .inl rfl
  | some n =>
      cases hinput : n.inputs.head? with
      | none => exact .inl (by simp [hinput])
      | some input =>
          have hnew : n.portRef input ≠ ⟨name, "input"⟩ := by
            intro heq
            exact hne ((node?_eq_some hn).2.symm.trans (congrArg PortRef.node heq))
          simp only [Option.bind_eq_bind, Option.bind_some, hinput, h.origins]
          by_cases htarget : n.portRef input = l.target
          · rw [if_pos htarget, htarget, h.linkOrigin?_target]
            exact .inr ⟨rfl, rfl⟩
          · rw [if_neg htarget, if_neg hnew]
            exact .inl rfl

theorem rerouteOrigin?_ne {other : String} (horigin : g.rerouteOrigin? other = some origin) :
    origin.node ≠ name := by
  obtain ⟨n, -, hrest⟩ := Option.bind_eq_some_iff.1 horigin
  obtain ⟨input, -, hlink⟩ := Option.bind_eq_some_iff.1 hrest
  exact (h.linkOrigin?_ne hlink).1

/-- The new reroute leads to what the origin of the link leads to. -/
theorem leadsTo_self (hnode : port.node = name) (hchain : g'.LeadsTo l.origin source) :
    g'.LeadsTo port source := by
  obtain ⟨count, hchain⟩ := hchain
  have hreroute : port.node ∈ g'.rerouteNames := by
    rw [h.rerouteNames_eq, hnode]
    exact List.mem_append_right _ (List.mem_singleton.2 rfl)
  exact ⟨count + 1, .up hreroute (hnode ▸ h.rerouteOrigin?_self) hchain⟩

theorem leadsTo_of_leadsIn (hchain : g.LeadsIn count port source) (hne : port.node ≠ name) :
    g'.LeadsTo port source := by
  induction hchain with
  | here hport => exact ⟨0, .here (fun hmem => hport ((h.mem_rerouteNames_iff hne).1 hmem))⟩
  | @up count port origin source hreroute horigin _ ih =>
      have hreroute' := (h.mem_rerouteNames_iff hne).2 hreroute
      have hrest := ih (h.rerouteOrigin?_ne horigin)
      rcases h.rerouteOrigin?_of_ne hne with hsame | ⟨hlink, hnew⟩
      · obtain ⟨count, hrest⟩ := hrest
        exact ⟨count + 1, .up hreroute' (hsame.trans horigin) hrest⟩
      · -- the chain went along the link, and passes through the new reroute now
        cases horigin.symm.trans hlink
        obtain ⟨count, hrest⟩ := h.leadsTo_self
          (show (⟨name, "output"⟩ : PortRef).node = name from rfl) hrest
        exact ⟨count + 1, .up hreroute' hnew hrest⟩

/-- Chains in the second graph, with the new reroute left out. -/
theorem leadsTo_skip (hchain : g'.LeadsIn count port source) :
    g.LeadsTo (if port.node = name then l.origin else port) source := by
  induction hchain with
  | @here port hport =>
      have hne : port.node ≠ name := by
        rintro rfl
        exact hport (h.rerouteNames_eq ▸ List.mem_append_right _ (List.mem_singleton.2 rfl))
      rw [if_neg hne]
      exact ⟨0, .here (fun hmem => hport ((h.mem_rerouteNames_iff hne).2 hmem))⟩
  | @up count port origin source hreroute horigin _ ih =>
      by_cases hname : port.node = name
      · rw [hname, h.rerouteOrigin?_self] at horigin
        cases horigin
        rw [if_neg (h.link_ne h.mem).1] at ih
        rw [if_pos hname]
        exact ih
      · have hreroute' := (h.mem_rerouteNames_iff hname).1 hreroute
        rw [if_neg hname]
        rcases h.rerouteOrigin?_of_ne hname with hsame | ⟨hlink, hnew⟩
        · rw [hsame] at horigin
          rw [if_neg (h.rerouteOrigin?_ne horigin)] at ih
          obtain ⟨count, hrest⟩ := ih
          exact ⟨count + 1, .up hreroute' horigin hrest⟩
        · cases horigin.symm.trans hnew
          rw [if_pos rfl] at ih
          obtain ⟨count, hrest⟩ := ih
          exact ⟨count + 1, .up hreroute' hlink hrest⟩

theorem leadsTo_iff (hne : port.node ≠ name) : g'.LeadsTo port source ↔ g.LeadsTo port source := by
  constructor
  · rintro ⟨count, hchain⟩
    have hskip := h.leadsTo_skip hchain
    rwa [if_neg hne] at hskip
  · rintro ⟨count, hchain⟩
    exact h.leadsTo_of_leadsIn hchain hne

theorem leadsTo_self_iff (hnode : port.node = name) :
    g'.LeadsTo port source ↔ g.LeadsTo l.origin source := by
  constructor
  · rintro ⟨count, hchain⟩
    have hskip := h.leadsTo_skip hchain
    rwa [if_pos hnode] at hskip
  · intro hchain
    exact h.leadsTo_self hnode ((h.leadsTo_iff (h.link_ne h.mem).1).2 hchain)

/-! ## Data has the same origins -/

theorem hasOrigin_iff : g'.HasOrigin target source ↔ g.HasOrigin target source := by
  by_cases hname : target.node = name
  · constructor
    · rintro ⟨hcomputing, -⟩
      exact absurd (h.rerouteNames_eq ▸ List.mem_append_right _ (by simp [hname])) hcomputing
    · rintro ⟨-, origin, hlink, -⟩
      exact absurd hname (h.linkOrigin?_ne hlink).2
  · have hnew : target ≠ ⟨name, "input"⟩ := fun heq => hname (congrArg PortRef.node heq)
    unfold HasOrigin
    rw [h.mem_rerouteNames_iff hname, h.origins, if_neg hnew]
    by_cases htarget : target = l.target
    · rw [if_pos htarget, htarget, h.linkOrigin?_target]
      simp only [Option.some.injEq, exists_eq_left', h.leadsTo_self_iff]
    · rw [if_neg htarget]
      refine and_congr_right fun _ => exists_congr fun origin => and_congr_right fun hlink => ?_
      exact h.leadsTo_iff (h.linkOrigin?_ne hlink).1

theorem resolve?_eq (target : PortRef) : g'.resolve? target = g.resolve? target := by
  apply Option.ext
  intro source
  rw [resolve?_eq_some_iff, resolve?_eq_some_iff]
  exact h.hasOrigin_iff

theorem dataOrigin?_eq (target : PortRef) :
    (Index.build g').dataOrigin? target = (Index.build g).dataOrigin? target := by
  rw [Index.dataOrigin?_build, Index.dataOrigin?_build, h.resolve?_eq]

/-- A reroute has no cells, and the other nodes keep theirs. -/
theorem cells_eq : g'.layout.cells = g.layout.cells := by
  obtain ⟨ty, hnodes⟩ := h.nodes
  have hcomputing : (g'.nodes.filter fun n => !n.isReroute) =
      g.nodes.filter fun n => !n.isReroute := by
    rw [hnodes, List.filter_append]
    exact List.append_nil _
  exact StorageLayout.cells_build_congr hcomputing h.dataOrigin?_eq

end Interposed

end Graph

end Dataflow
