import Dataflow.Proofs.Graph.Structure
import Dataflow.Proofs.Index.Chains
import Dataflow.Proofs.Storage.FreeInputs

/-!
# Where the data of an input comes from

`Graph.Climbs` goes up from an input to an input from link to link, said by the nodes and links of
the graph alone. The data origin that the index gives an input of a computing node is the output
of a computing node that such a climb ends below. There is none exactly where climbing stops at an
input without a link, at a reroute without inputs, or never: `Index.dataOrigin?_follows_links`.
-/

namespace Dataflow

namespace Graph

/-- These reroutes are passed on the way up from one input to another: each is met at one of its
outputs and left through its first input. -/
inductive Climbs (g : Graph) : PortRef → List Node → PortRef → Prop
  | here (target : PortRef) : Climbs g target [] target
  | through {target stop : PortRef} {r : Node} {output input : Port} {rs : List Node}
      (hr : r ∈ g.nodes) (hreroute : r.isReroute = true) (houtput : output ∈ r.outputs)
      (hlink : (⟨target, r.portRef output⟩ : Link) ∈ g.links)
      (hinput : r.inputs.head? = some input)
      (hrest : Climbs g (r.portRef input) rs stop) : Climbs g target (r :: rs) stop

/-- The way up from the input ends at an output of a computing node. -/
def DrawsFrom (g : Graph) (target source : PortRef) : Prop :=
  ∃ rs stop, g.Climbs target rs stop ∧ (⟨stop, source⟩ : Link) ∈ g.links ∧
    ∃ n ∈ g.nodes, n.isReroute = false ∧ ∃ output ∈ n.outputs, n.portRef output = source

/-- The way up from the input ends at no output of a computing node. -/
inductive Unfed (g : Graph) (target : PortRef) : Prop
  | dangling {rs : List Node} {stop : PortRef} (hclimb : g.Climbs target rs stop)
      (hunlinked : ∀ l ∈ g.links, l.target ≠ stop)
  | closed {rs : List Node} {stop : PortRef} {r : Node} {output : Port}
      (hclimb : g.Climbs target rs stop) (hr : r ∈ g.nodes) (hreroute : r.isReroute = true)
      (houtput : output ∈ r.outputs) (hlink : (⟨stop, r.portRef output⟩ : Link) ∈ g.links)
      (hinputs : r.inputs = [])
  | circular {rs : List Node} {stop : PortRef} (hclimb : g.Climbs target rs stop)
      (hrepeated : ¬ rs.Nodup)

variable {g : Graph} {target origin source stop : PortRef} {rs : List Node} {r n : Node}
  {count : Nat}

/-! ## Links and reroutes -/

theorem WellFormed.linkOrigin?_eq_some_iff (hg : g.WellFormed) :
    g.linkOrigin? target = some origin ↔ (⟨target, origin⟩ : Link) ∈ g.links :=
  (mem_links_iff hg.targets_nodup (l := ⟨target, origin⟩)).symm

/-- What is linked to an input is an output of some node. -/
theorem WellFormed.exists_output_of_link (hg : g.WellFormed)
    (hlink : (⟨target, origin⟩ : Link) ∈ g.links) :
    ∃ n ∈ g.nodes, ∃ output ∈ n.outputs, n.portRef output = origin := by
  obtain ⟨output, -, hport, -, -⟩ := (hg.links_wellFormed _ hlink).typed
  obtain ⟨n, hn, hout⟩ := port_eq_ok_iff.1 hport
  obtain ⟨hmem, hname⟩ := node?_eq_some hn
  obtain ⟨houtput, hid⟩ := Node.port?_eq_some hout
  refine ⟨n, hmem, output, houtput, ?_⟩
  change (⟨n.name, output.identifier⟩ : PortRef) = origin
  rw [hname, hid]

theorem WellFormed.rerouteOrigin?_eq_some_iff (hg : g.WellFormed) (hr : r ∈ g.nodes) :
    g.rerouteOrigin? r.name = some origin ↔
      ∃ input, r.inputs.head? = some input ∧
        (⟨r.portRef input, origin⟩ : Link) ∈ g.links := by
  simp only [rerouteOrigin?, node?_of_mem hg.names_nodup hr, Option.bind_eq_bind,
    Option.bind_some, Option.bind_eq_some_iff, hg.linkOrigin?_eq_some_iff]

/-- What is linked to an input is an output of a reroute or of a computing node. -/
theorem WellFormed.exists_reroute_of_link (hg : g.WellFormed)
    (hlink : (⟨target, origin⟩ : Link) ∈ g.links) (hreroute : origin.node ∈ g.rerouteNames) :
    ∃ r ∈ g.nodes, r.isReroute = true ∧ ∃ output ∈ r.outputs, r.portRef output = origin := by
  obtain ⟨r, hr, output, houtput, rfl⟩ := hg.exists_output_of_link hlink
  refine ⟨r, hr, ?_, output, houtput, rfl⟩
  by_contra hcomputes
  exact hg.not_mem_rerouteNames hr (by simpa using hcomputes) hreroute

/-! ## Climbing -/

theorem Climbs.snoc {output input : Port} (h : g.Climbs target rs stop) (hr : r ∈ g.nodes)
    (hreroute : r.isReroute = true) (houtput : output ∈ r.outputs)
    (hlink : (⟨stop, r.portRef output⟩ : Link) ∈ g.links)
    (hinput : r.inputs.head? = some input) :
    g.Climbs target (rs ++ [r]) (r.portRef input) := by
  induction h with
  | here _ => exact .through hr hreroute houtput hlink hinput (.here _)
  | through hr' hreroute' houtput' hlink' hinput' _ ih =>
      exact .through hr' hreroute' houtput' hlink' hinput' (ih hlink)

/-- Each reroute that has been passed can be passed. -/
theorem Climbs.exists_input (h : g.Climbs target rs stop) (hr : r ∈ rs) :
    ∃ input, r.inputs.head? = some input := by
  induction h with
  | here _ => contradiction
  | through _ _ _ _ hinput _ ih =>
      rcases List.mem_cons.1 hr with rfl | hr
      · exact ⟨_, hinput⟩
      · exact ih hr

theorem Climbs.mem_nodes (h : g.Climbs target rs stop) (hr : r ∈ rs) : r ∈ g.nodes := by
  induction h with
  | here _ => contradiction
  | through hr' _ _ _ _ _ ih =>
      rcases List.mem_cons.1 hr with rfl | hr
      · exact hr'
      · exact ih hr

/-- A chain of reroutes is climbed. -/
theorem LeadsIn.exists_climbs (hg : g.WellFormed) (h : g.LeadsIn count origin source)
    (hlink : (⟨target, origin⟩ : Link) ∈ g.links) :
    ∃ rs stop, g.Climbs target rs stop ∧ (⟨stop, source⟩ : Link) ∈ g.links := by
  induction h generalizing target with
  | here _ => exact ⟨[], target, .here target, hlink⟩
  | up hreroute horigin _ ih =>
      obtain ⟨r, hr, hyes, output, houtput, rfl⟩ := hg.exists_reroute_of_link hlink hreroute
      obtain ⟨input, hinput, hnext⟩ := (hg.rerouteOrigin?_eq_some_iff hr).1 horigin
      obtain ⟨rs, stop, hclimb, hend⟩ := ih hnext
      exact ⟨r :: rs, stop, .through hr hyes houtput hlink hinput hclimb, hend⟩

/-- What a climb ends below is what the first link leads to. -/
theorem Climbs.exists_leadsTo (hg : g.WellFormed) (h : g.Climbs target rs stop)
    (hend : (⟨stop, source⟩ : Link) ∈ g.links) (hsource : source.node ∉ g.rerouteNames) :
    ∃ origin, (⟨target, origin⟩ : Link) ∈ g.links ∧ g.LeadsTo origin source := by
  induction h with
  | here _ => exact ⟨source, hend, 0, .here hsource⟩
  | @through target stop r output input rs hr hreroute houtput hlink hinput _ ih =>
      obtain ⟨origin, horigin, count, hchain⟩ := ih hend
      refine ⟨_, hlink, count + 1, .up (name_mem_rerouteNames hr hreroute) ?_ hchain⟩
      exact (hg.rerouteOrigin?_eq_some_iff hr).2 ⟨input, hinput, horigin⟩

/-- A chain from an output of a reroute goes on from what is linked to its first input. -/
theorem LeadsIn.of_reroute (hg : g.WellFormed) {output : Port} (hr : r ∈ g.nodes)
    (hreroute : r.isReroute = true) (h : g.LeadsIn count (r.portRef output) source) :
    ∃ rest input origin, count = rest + 1 ∧ r.inputs.head? = some input ∧
      (⟨r.portRef input, origin⟩ : Link) ∈ g.links ∧ g.LeadsIn rest origin source := by
  cases h with
  | here hcomputes => exact absurd (name_mem_rerouteNames hr hreroute) hcomputes
  | up _ horigin hrest =>
      obtain ⟨input, hinput, hlink⟩ := (hg.rerouteOrigin?_eq_some_iff hr).1 horigin
      exact ⟨_, input, _, rfl, hinput, hlink, hrest⟩

/-- Climbing along a chain that ends passes no reroute twice and comes to an input that is linked
to what is left of the chain. -/
theorem Climbs.exists_rest (hg : g.WellFormed) (h : g.Climbs target rs stop)
    (hlink : (⟨target, origin⟩ : Link) ∈ g.links) (hchain : g.LeadsIn count origin source) :
    rs.Nodup ∧ (∀ r ∈ rs, ∃ port k, port.node = r.name ∧ g.LeadsIn k port source ∧ k ≤ count) ∧
      ∃ below rest, (⟨stop, below⟩ : Link) ∈ g.links ∧ g.LeadsIn rest below source := by
  induction h generalizing origin count with
  | here _ => exact ⟨List.nodup_nil, by simp, origin, count, hlink, hchain⟩
  | @through target stop r output input rs hr hreroute houtput hlink' hinput _ ih =>
      have hsame := hg.linkOrigin?_eq_some_iff.2 hlink
      rw [hg.linkOrigin?_eq_some_iff.2 hlink'] at hsame
      cases hsame
      obtain ⟨rest, input', origin, rfl, hinput', hnext, hrest⟩ := hchain.of_reroute hg hr hreroute
      rw [hinput] at hinput'
      cases hinput'
      obtain ⟨hnodup, hpassed, hend⟩ := ih hnext hrest
      refine ⟨List.nodup_cons.2 ⟨?_, hnodup⟩, ?_, hend⟩
      · -- what lies above the reroute would be longer than itself
        intro hmem
        obtain ⟨port, k, hport, hk, hle⟩ := hpassed r hmem
        have hcount := hk.count_eq hchain hport
        omega
      · intro s hs
        rcases List.mem_cons.1 hs with rfl | hs
        · exact ⟨_, rest + 1, rfl, hchain, Nat.le_refl _⟩
        · obtain ⟨port, k, hport, hk, hle⟩ := hpassed s hs
          exact ⟨port, k, hport, hk, Nat.le_succ_of_le hle⟩

/-! ## Resolution climbs -/

theorem drawsFrom_iff_hasOrigin (hg : g.WellFormed) (htarget : target.node ∉ g.rerouteNames) :
    g.DrawsFrom target source ↔ g.HasOrigin target source := by
  constructor
  · rintro ⟨rs, stop, hclimb, hend, n, hn, hcomputes, output, -, rfl⟩
    obtain ⟨origin, hlink, hleads⟩ :=
      hclimb.exists_leadsTo hg hend (hg.not_mem_rerouteNames hn hcomputes)
    exact ⟨htarget, origin, hg.linkOrigin?_eq_some_iff.2 hlink, hleads⟩
  · rintro ⟨-, origin, hlink, count, hchain⟩
    obtain ⟨rs, stop, hclimb, hend⟩ :=
      hchain.exists_climbs hg (hg.linkOrigin?_eq_some_iff.1 hlink)
    obtain ⟨n, hn, output, houtput, rfl⟩ := hg.exists_output_of_link hend
    refine ⟨rs, stop, hclimb, hend, n, hn, ?_, output, houtput, rfl⟩
    by_contra hreroute
    exact hchain.not_reroute (name_mem_rerouteNames hn (by simpa using hreroute))

theorem Unfed.not_drawsFrom (hg : g.WellFormed) (h : g.Unfed target)
    (htarget : target.node ∉ g.rerouteNames) : ¬ g.DrawsFrom target source := by
  rw [drawsFrom_iff_hasOrigin hg htarget]
  rintro ⟨-, origin, hlink, count, hchain⟩
  rw [hg.linkOrigin?_eq_some_iff] at hlink
  cases h with
  | dangling hclimb hunlinked =>
      obtain ⟨-, -, below, rest, hbelow, -⟩ := hclimb.exists_rest hg hlink hchain
      exact hunlinked _ hbelow rfl
  | closed hclimb hr hreroute houtput hlink' hinputs =>
      obtain ⟨-, -, below, rest, hbelow, hrest⟩ := hclimb.exists_rest hg hlink hchain
      have hsame := hg.linkOrigin?_eq_some_iff.2 hbelow
      rw [hg.linkOrigin?_eq_some_iff.2 hlink'] at hsame
      cases hsame
      obtain ⟨_, input, _, -, hinput, -, -⟩ := hrest.of_reroute hg hr hreroute
      rw [hinputs] at hinput
      contradiction
  | circular hclimb hrepeated => exact hrepeated (hclimb.exists_rest hg hlink hchain).1

/-- Resolution gives up for no other reasons: the reroutes that are not fresh have been passed. -/
theorem unfed_of_resolveFrom? (hg : g.WellFormed) {fresh : List String}
    (hclimb : g.Climbs target rs stop) (hlink : (⟨stop, origin⟩ : Link) ∈ g.links)
    (hfresh : ∀ name ∈ g.rerouteNames, name ∈ fresh ∨ name ∈ rs.map Node.name)
    (h : g.resolveFrom? fresh origin = none) : g.Unfed target := by
  induction fresh, origin using resolveFrom?.induct g generalizing rs stop with
  | case1 fresh origin hcontains hmem ih =>
      rw [resolveFrom?, if_pos hcontains, dif_pos hmem] at h
      obtain ⟨r, hr, hreroute, output, houtput, rfl⟩ :=
        hg.exists_reroute_of_link hlink (List.contains_iff_mem.1 hcontains)
      cases hinput : r.inputs.head? with
      | none =>
          exact .closed hclimb hr hreroute houtput hlink (List.head?_eq_none_iff.1 hinput)
      | some input =>
          have hnext := hclimb.snoc hr hreroute houtput hlink hinput
          cases horigin : g.rerouteOrigin? r.name with
          | none =>
              refine .dangling hnext ?_
              rintro ⟨_, origin⟩ hl rfl
              rw [(hg.rerouteOrigin?_eq_some_iff hr).2 ⟨input, hinput, hl⟩] at horigin
              contradiction
          | some origin =>
              obtain ⟨input', hinput', hlink'⟩ := (hg.rerouteOrigin?_eq_some_iff hr).1 horigin
              rw [hinput] at hinput'
              cases hinput'
              refine ih origin hnext hlink' ?_ ?_
              · intro name hname
                rw [List.map_append, List.mem_append, List.map_singleton, List.mem_singleton]
                by_cases hself : name = r.name
                · exact .inr (.inr hself)
                · exact (hfresh name hname).imp (List.mem_erase_of_ne hself).2 .inl
              · change (g.rerouteOrigin? r.name).bind _ = none at h
                rw [horigin] at h
                exact h
  | case2 fresh origin hcontains hmem =>
      -- a reroute that has been passed is met again
      have hmet := List.contains_iff_mem.1 hcontains
      obtain ⟨r, hr, hreroute, output, houtput, rfl⟩ := hg.exists_reroute_of_link hlink hmet
      obtain ⟨s, hs, hname⟩ := List.mem_map.1 ((hfresh _ hmet).resolve_left hmem)
      obtain rfl := eq_of_name_eq hg.names_nodup (hclimb.mem_nodes hs) hr hname
      obtain ⟨input, hinput⟩ := hclimb.exists_input hs
      refine .circular (hclimb.snoc hr hreroute houtput hlink hinput) ?_
      intro hnodup
      exact (List.nodup_append.1 hnodup).2.2 s hs s (List.mem_singleton.2 rfl) rfl
  | case3 fresh origin hcontains =>
      rw [resolveFrom?, if_neg hcontains] at h
      contradiction

/-- The reasons for which an input has no data origin. -/
theorem resolve?_eq_none_iff (hg : g.WellFormed) (htarget : target.node ∉ g.rerouteNames) :
    g.resolve? target = none ↔ g.Unfed target := by
  constructor
  · intro h
    unfold resolve? at h
    rw [if_neg (by simpa using htarget)] at h
    cases hlink : g.linkOrigin? target with
    | none =>
        refine .dangling (.here target) ?_
        rintro ⟨_, origin⟩ hl rfl
        rw [hg.linkOrigin?_eq_some_iff.2 hl] at hlink
        contradiction
    | some origin =>
        rw [hlink] at h
        exact unfed_of_resolveFrom? hg (.here target) (hg.linkOrigin?_eq_some_iff.1 hlink)
          (fun _ hname => .inl hname) h
  · intro h
    rw [Option.eq_none_iff_forall_ne_some]
    intro source hsource
    have hdraws := (drawsFrom_iff_hasOrigin hg htarget).2 (resolve?_eq_some_iff.1 hsource)
    exact h.not_drawsFrom hg htarget hdraws

end Graph

/-- The data origin of an input of a computing node is exactly where the way up from it ends, and
an input without one has no such way. Inputs of reroutes have links but no data origin. -/
theorem Index.dataOrigin?_follows_links {g : Graph} (hg : g.Reachable) {n : Node}
    (hn : n ∈ g.nodes) (p : Port) :
    (n.isReroute = false →
      (∀ source, (Index.build g).dataOrigin? (n.portRef p) = some source ↔
        g.DrawsFrom (n.portRef p) source) ∧
      ((Index.build g).dataOrigin? (n.portRef p) = none ↔ g.Unfed (n.portRef p))) ∧
    (n.isReroute = true → (Index.build g).dataOrigin? (n.portRef p) = none) ∧
    ∀ source, (Index.build g).directOrigin? (n.portRef p) = some source ↔
      (⟨n.portRef p, source⟩ : Link) ∈ g.links := by
  have hwell := hg.wellFormed
  simp only [Index.dataOrigin?_build]
  refine ⟨?_, ?_, ?_⟩
  · intro hcomputes
    have hfree : (n.portRef p).node ∉ g.rerouteNames := hwell.not_mem_rerouteNames hn hcomputes
    refine ⟨fun source => ?_, Graph.resolve?_eq_none_iff hwell hfree⟩
    rw [Graph.resolve?_eq_some_iff, Graph.drawsFrom_iff_hasOrigin hwell hfree]
  · intro hreroute
    have hmem : (n.portRef p).node ∈ g.rerouteNames := Graph.name_mem_rerouteNames hn hreroute
    unfold Graph.resolve?
    rw [if_pos (List.contains_iff_mem.2 hmem)]
  · intro source
    exact hwell.linkOrigin?_eq_some_iff

/-! ## A ring of reroutes

One input of the sum gets its data through a reroute with two inputs, the other one is linked to
two reroutes that feed each other.
-/

namespace RingedSum

def source : Node := ⟨"source", .constant (.i32 7), [], [⟨"value", .i32, none⟩]⟩

def fork : Node where
  name := "fork"
  kind := .host ⟨"fork", [⟨"first", .i32⟩, ⟨"second", .i32⟩], [⟨"out", .i32⟩], true, none, .forward⟩
  inputs := [⟨"first", .i32, some (.i32 0)⟩, ⟨"second", .i32, some (.i32 0)⟩]
  outputs := [⟨"out", .i32, none⟩]

def relay (name : String) : Node :=
  ⟨name, .reroute .i32, [⟨"input", .i32, some (.i32 0)⟩], [⟨"output", .i32, none⟩]⟩

def sum : Node :=
  ⟨"sum", .math .add .i32, [⟨"a", .i32, some (.i32 0)⟩, ⟨"b", .i32, some (.i32 0)⟩],
    [⟨"result", .i32, none⟩]⟩

def graph : Graph where
  name := "ringed sum"
  nodes := [source, fork, relay "left", relay "right", sum]
  links :=
    [ ⟨⟨"fork", "first"⟩, ⟨"source", "value"⟩⟩,
      ⟨⟨"sum", "a"⟩, ⟨"fork", "out"⟩⟩,
      ⟨⟨"left", "input"⟩, ⟨"right", "output"⟩⟩,
      ⟨⟨"right", "input"⟩, ⟨"left", "output"⟩⟩,
      ⟨⟨"sum", "b"⟩, ⟨"left", "output"⟩⟩ ]
  token := none

theorem reachable : graph.Reachable := by
  have h₁ : Graph.Reachable ⟨"ringed sum", [source], [], none⟩ :=
    .addNode (.empty _) (show (Graph.empty "ringed sum").addNode "source" source.kind =
      .ok (source, _) from rfl)
  have h₂ := Graph.Reachable.addNode h₁
    (show Graph.addNode _ "fork" fork.kind = .ok (fork, _) from rfl)
  have h₃ := Graph.Reachable.addNode h₂
    (show Graph.addNode _ "left" (.reroute .i32) = .ok (relay "left", _) from rfl)
  have h₄ := Graph.Reachable.addNode h₃
    (show Graph.addNode _ "right" (.reroute .i32) = .ok (relay "right", _) from rfl)
  have h₅ := Graph.Reachable.addNode h₄
    (show Graph.addNode _ "sum" sum.kind = .ok (sum, _) from rfl)
  have h₆ := Graph.Reachable.link h₅
    (show Graph.link _ ⟨"source", "value"⟩ ⟨"fork", "first"⟩ = .ok (none, _) from rfl)
  have h₇ := Graph.Reachable.link h₆
    (show Graph.link _ ⟨"fork", "out"⟩ ⟨"sum", "a"⟩ = .ok (none, _) from rfl)
  have h₈ := Graph.Reachable.link h₇
    (show Graph.link _ ⟨"right", "output"⟩ ⟨"left", "input"⟩ = .ok (none, _) from rfl)
  have h₉ := Graph.Reachable.link h₈
    (show Graph.link _ ⟨"left", "output"⟩ ⟨"right", "input"⟩ = .ok (none, _) from rfl)
  exact .link h₉ (show Graph.link _ ⟨"left", "output"⟩ ⟨"sum", "b"⟩ = .ok (none, _) from rfl)

theorem drawsFrom_source : graph.DrawsFrom ⟨"sum", "a"⟩ ⟨"source", "value"⟩ :=
  ⟨[fork], ⟨"fork", "first"⟩,
    .through (by decide) rfl List.mem_cons_self (by decide) rfl (.here _), by decide,
    source, by decide, rfl, _, List.mem_cons_self, rfl⟩

/-- The way round the ring, from any input that the left reroute is linked to. -/
theorem climbs_ring {target : PortRef} (hlink : ⟨target, ⟨"left", "output"⟩⟩ ∈ graph.links) :
    graph.Climbs target [relay "left", relay "right", relay "left"] ⟨"left", "input"⟩ :=
  .through (by decide) rfl List.mem_cons_self hlink rfl
    (.through (by decide) rfl List.mem_cons_self (by decide) rfl
      (.through (by decide) rfl List.mem_cons_self (by decide) rfl (.here _)))

theorem dataOrigin?_follows_links_ringedSum : graph.Reachable ∧ sum ∈ graph.nodes ∧
    relay "left" ∈ graph.nodes ∧
    (Index.build graph).dataOrigin? ⟨"sum", "a"⟩ = some ⟨"source", "value"⟩ ∧
    (Index.build graph).dataOrigin? ⟨"sum", "b"⟩ = none ∧
    (Index.build graph).dataOrigin? ⟨"left", "input"⟩ = none ∧
    (Index.build graph).directOrigin? ⟨"left", "input"⟩ = some ⟨"right", "output"⟩ := by
  have hsum : sum ∈ graph.nodes := by decide
  have hleft : relay "left" ∈ graph.nodes := by decide
  obtain ⟨hfed, -⟩ := (Index.dataOrigin?_follows_links reachable hsum ⟨"a", .i32, none⟩).1 rfl
  obtain ⟨-, hring⟩ := (Index.dataOrigin?_follows_links reachable hsum ⟨"b", .i32, none⟩).1 rfl
  obtain ⟨-, hrelay, hdirect⟩ :=
    Index.dataOrigin?_follows_links reachable hleft ⟨"input", .i32, none⟩
  exact ⟨reachable, hsum, hleft, (hfed _).2 drawsFrom_source,
    hring.2 (.circular (climbs_ring (by decide)) (by decide)), hrelay rfl,
    (hdirect _).2 (by decide)⟩

end RingedSum

end Dataflow
