import Dataflow.Proofs.Graph.WellFormed
import Dataflow.Unit.Request

/-!
# Origins of data

The index answers with the port that resolution through reroutes ends at, and requests
resolve outputs in the same way. Where reroutes hand on the type of their first input,
the port at the end has the type that the chain started from.
-/

namespace Dataflow

/-- The graph has an output of this type at the address. -/
def Graph.HasOutput (g : Graph) (ref : PortRef) (ty : DataType) : Prop :=
  ∃ p, g.port ref .output = .ok p ∧ p.dataType = ty

/-- Every reroute has outputs of the type of its first input only. -/
def Graph.ReroutesTyped (g : Graph) : Prop :=
  ∀ n ∈ g.nodes, n.isReroute = true → ∀ input, n.inputs.head? = some input →
    ∀ output ∈ n.outputs, output.dataType = input.dataType

namespace Graph

variable {g : Graph}

theorem HasOutput.unique {ref : PortRef} {s t : DataType} (hs : g.HasOutput ref s)
    (ht : g.HasOutput ref t) : s = t := by
  obtain ⟨p, hp, rfl⟩ := hs
  obtain ⟨q, hq, rfl⟩ := ht
  rw [hp] at hq
  cases hq
  rfl

theorem name_mem_rerouteNames {n : Node} (hn : n ∈ g.nodes) (hreroute : n.isReroute = true) :
    n.name ∈ g.rerouteNames :=
  List.mem_map_of_mem (List.mem_filter.2 ⟨hn, hreroute⟩)

theorem mem_of_rerouteNames_contains {name : String}
    (h : g.rerouteNames.contains name = true) :
    ∃ n ∈ g.nodes, n.name = name ∧ n.isReroute = true := by
  rw [rerouteNames, List.contains_iff_mem, List.mem_map] at h
  obtain ⟨n, hn, hname⟩ := h
  obtain ⟨hmem, hreroute⟩ := List.mem_filter.1 hn
  exact ⟨n, hmem, hname, hreroute⟩

theorem linkOrigin?_eq_some {target origin : PortRef} (h : g.linkOrigin? target = some origin) :
    ∃ l ∈ g.links, l.target = target ∧ l.origin = origin := by
  rw [linkOrigin?, Option.map_eq_some_iff] at h
  obtain ⟨l, hl, horigin⟩ := h
  exact ⟨l, List.mem_of_find?_eq_some hl, by simpa using List.find?_some hl, horigin⟩

/-! ## The index and resolution agree -/

/-- An input has a data origin only where it has a link. -/
theorem exists_link_of_resolve? {target origin : PortRef} (h : g.resolve? target = some origin) :
    ∃ l ∈ g.links, l.target = target := by
  unfold resolve? at h
  split at h
  · contradiction
  · obtain ⟨direct, hdirect, -⟩ := Option.bind_eq_some_iff.1 h
    obtain ⟨l, hl, htarget, -⟩ := linkOrigin?_eq_some hdirect
    exact ⟨l, hl, htarget⟩

theorem findOrigin?_filterMap (resolve : PortRef → Option PortRef) (links : List Link)
    (target : PortRef) :
    findOrigin? (links.filterMap fun l =>
        (resolve l.target).map fun origin => (⟨l.target, origin⟩ : Link)) target =
      if target ∈ links.map Link.target then resolve target else none := by
  induction links with
  | nil => rfl
  | cons l ls ih =>
      unfold findOrigin? at ih ⊢
      cases hl : resolve l.target with
      | none =>
          rw [List.filterMap_cons_none (by rw [hl]; rfl), ih]
          by_cases htarget : target = l.target
          · subst htarget
            simp [hl]
          · simp [htarget]
      | some origin =>
          rw [List.filterMap_cons_some (by rw [hl]; rfl)]
          by_cases htarget : target = l.target
          · subst htarget
            simp [hl]
          · rw [List.find?_cons_of_neg (by simpa using Ne.symm htarget), ih]
            simp [htarget]

end Graph

theorem Index.dataOrigin?_build (g : Graph) (input : PortRef) :
    (Index.build g).dataOrigin? input = g.resolve? input := by
  change findOrigin? _ input = _
  rw [Index.build, Graph.findOrigin?_filterMap]
  split
  · rfl
  · rename_i hnone
    cases h : g.resolve? input with
    | none => rfl
    | some origin =>
        obtain ⟨l, hl, htarget⟩ := Graph.exists_link_of_resolve? h
        exact absurd (List.mem_map.2 ⟨l, hl, htarget⟩) hnone

/-- A requested output leads to the port that resolution ends at, and to the refusal of
the request where resolution ends nowhere. -/
theorem followReroutes_build (g : Graph) (requested : PortRef) (fresh : List String)
    (source : PortRef) :
    followReroutes g (Index.build g) requested fresh source =
      match g.resolveFrom? fresh source with
      | some origin => .ok origin
      | none => .error (.rerouteRequest requested) := by
  induction hlen : fresh.length generalizing fresh source with
  | zero =>
      rw [List.length_eq_zero_iff] at hlen
      subst hlen
      rw [followReroutes, Graph.resolveFrom?]
      change (if g.rerouteNames.contains source.node then _ else _) = _
      split <;> simp
  | succ count ih =>
      rw [followReroutes, Graph.resolveFrom?]
      change (if g.rerouteNames.contains source.node then _ else _) = _
      split
      · rename_i hreroute
        split
        · rename_i hfresh
          obtain ⟨n, hn, hname, -⟩ := Graph.mem_of_rerouteNames_contains hreroute
          have hsome : (g.node? source.node).isSome := by
            rw [Graph.node?_isSome_iff, ← hname]
            exact List.mem_map_of_mem hn
          obtain ⟨m, hm⟩ := Option.isSome_iff_exists.1 hsome
          have hshorter : (fresh.erase source.node).length = count := by
            rw [List.length_erase_of_mem hfresh, hlen]
            rfl
          simp only [hm, Graph.rerouteOrigin?, Option.bind_eq_bind, Option.bind_some]
          cases hhead : m.inputs.head? with
          | none => rfl
          | some input =>
              have hdirect : (Index.build g).directOrigin? (m.portRef input) =
                  g.linkOrigin? (m.portRef input) := rfl
              simp only [Option.bind_some, hdirect]
              cases hlink : g.linkOrigin? (m.portRef input) with
              | none => rfl
              | some origin => exact ih _ _ hshorter
        · rfl
      · rfl

/-! ## Types along a chain of reroutes -/

namespace Graph

variable {g : Graph}

theorem WellFormed.hasOutput_of_link (hg : g.WellFormed) {target origin : PortRef}
    (h : g.linkOrigin? target = some origin) {sink : Port}
    (hsink : g.port target .input = .ok sink) : g.HasOutput origin sink.dataType := by
  obtain ⟨l, hl, rfl, rfl⟩ := linkOrigin?_eq_some h
  obtain ⟨source, sink', hsource, hsink', htype⟩ := (hg.links_wellFormed l hl).typed
  rw [hsink] at hsink'
  cases hsink'
  exact ⟨source, hsource, htype⟩

/-- One step up a chain keeps the type. -/
theorem hasOutput_rerouteOrigin? (hg : g.WellFormed) (hreroutes : g.ReroutesTyped)
    {ref origin : PortRef} {ty : DataType} (href : g.HasOutput ref ty)
    (hreroute : g.rerouteNames.contains ref.node = true)
    (h : g.rerouteOrigin? ref.node = some origin) : g.HasOutput origin ty := by
  obtain ⟨p, hp, rfl⟩ := href
  obtain ⟨n, hn, hport⟩ := port_eq_ok_iff.1 hp
  obtain ⟨hmem, hname⟩ := node?_eq_some hn
  obtain ⟨m, hm, hmname, hmreroute⟩ := mem_of_rerouteNames_contains hreroute
  have hmn : m = n := eq_of_name_eq hg.names_nodup hm hmem (by rw [hmname, hname])
  subst hmn
  simp only [rerouteOrigin?, hn, Option.bind_eq_bind, Option.bind_some] at h
  obtain ⟨input, hinput, hlink⟩ := Option.bind_eq_some_iff.1 h
  have hmem' : input ∈ m.ports .input := List.mem_of_head? hinput
  have hsink := hg.port_of_mem hm hmem'
  have htype := hreroutes m hm hmreroute input hinput p (Node.port?_eq_some hport).1
  rw [htype]
  exact hg.hasOutput_of_link hlink hsink

theorem hasOutput_resolveFrom? (hg : g.WellFormed) (hreroutes : g.ReroutesTyped)
    {fresh : List String} {ref source : PortRef} {ty : DataType} (href : g.HasOutput ref ty)
    (h : g.resolveFrom? fresh ref = some source) : g.HasOutput source ty := by
  induction hlen : fresh.length generalizing fresh ref with
  | zero =>
      rw [List.length_eq_zero_iff] at hlen
      subst hlen
      rw [resolveFrom?] at h
      split at h
      · simp at h
      · cases h
        exact href
  | succ count ih =>
      rw [resolveFrom?] at h
      split at h
      · rename_i hreroute
        split at h
        · rename_i hfresh
          obtain ⟨origin, horigin, hrest⟩ := Option.bind_eq_some_iff.1 h
          refine ih (hasOutput_rerouteOrigin? hg hreroutes href hreroute horigin) hrest ?_
          rw [List.length_erase_of_mem hfresh, hlen]
          rfl
        · contradiction
      · cases h
        exact href

/-- The data that reaches an input has the type of the input. -/
theorem hasOutput_resolve? (hg : g.WellFormed) (hreroutes : g.ReroutesTyped)
    {target origin : PortRef} {sink : Port} (hsink : g.port target .input = .ok sink)
    (h : g.resolve? target = some origin) : g.HasOutput origin sink.dataType := by
  unfold resolve? at h
  split at h
  · contradiction
  · obtain ⟨direct, hdirect, hrest⟩ := Option.bind_eq_some_iff.1 h
    exact hasOutput_resolveFrom? hg hreroutes (hg.hasOutput_of_link hdirect hsink) hrest

end Graph

end Dataflow
