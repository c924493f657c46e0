import Dataflow.Proofs.Index.Origins

/-!
# Chains of reroutes

`Graph.LeadsTo` says which port the reroutes above an output lead to, without a bound on their
number and without a record of those met. Resolution ends at a port exactly when a chain does: a
chain that ends passes no reroute twice, because what lies above a reroute depends on the reroute
alone.
-/

namespace Dataflow.Graph

/-- That many reroutes lead from an output up to the port that has its data. -/
inductive LeadsIn (g : Graph) : Nat → PortRef → PortRef → Prop
  | here {port : PortRef} (h : port.node ∉ g.rerouteNames) : LeadsIn g 0 port port
  | up {count : Nat} {port origin source : PortRef} (hreroute : port.node ∈ g.rerouteNames)
      (horigin : g.rerouteOrigin? port.node = some origin)
      (hrest : LeadsIn g count origin source) : LeadsIn g (count + 1) port source

def LeadsTo (g : Graph) (port source : PortRef) : Prop := ∃ count, g.LeadsIn count port source

/-- The input of a computing node gets its data from the output. -/
def HasOrigin (g : Graph) (target source : PortRef) : Prop :=
  target.node ∉ g.rerouteNames ∧
    ∃ origin, g.linkOrigin? target = some origin ∧ g.LeadsTo origin source

variable {g : Graph} {port origin source source' target : PortRef} {count count' : Nat}

theorem LeadsIn.not_reroute (h : g.LeadsIn count port source) : source.node ∉ g.rerouteNames := by
  induction h with
  | here h => exact h
  | up _ _ _ ih => exact ih

/-- What lies above a reroute depends on the reroute alone. -/
theorem LeadsIn.count_eq (h : g.LeadsIn count port source)
    (h' : g.LeadsIn count' target source') (hnode : port.node = target.node) :
    count = count' := by
  induction h generalizing count' target with
  | here hport =>
      cases h' with
      | here _ => rfl
      | up hreroute _ _ => exact absurd (hnode ▸ hreroute) hport
  | up hreroute horigin _ ih =>
      cases h' with
      | here htarget => exact absurd (hnode ▸ hreroute) htarget
      | up _ horigin' hrest' =>
          rw [hnode, horigin'] at horigin
          cases horigin
          rw [ih hrest' rfl]

/-! ## Resolution follows chains -/

theorem exists_leadsIn_of_resolveFrom? {fresh : List String}
    (h : g.resolveFrom? fresh port = some source) : ∃ count, g.LeadsIn count port source := by
  induction hlen : fresh.length generalizing fresh port with
  | zero =>
      rw [List.length_eq_zero_iff] at hlen
      subst hlen
      rw [resolveFrom?] at h
      split at h
      · simp at h
      · rename_i hreroute
        cases h
        exact ⟨0, .here (by simpa using hreroute)⟩
  | succ bound ih =>
      rw [resolveFrom?] at h
      split at h
      · rename_i hreroute
        split at h
        · rename_i hfresh
          obtain ⟨origin, horigin, hrest⟩ := Option.bind_eq_some_iff.1 h
          have hshorter : (fresh.erase port.node).length = bound := by
            rw [List.length_erase_of_mem hfresh, hlen]
            rfl
          obtain ⟨count, hcount⟩ := ih hrest hshorter
          exact ⟨count + 1, .up (List.contains_iff_mem.1 hreroute) horigin hcount⟩
        · contradiction
      · rename_i hreroute
        cases h
        exact ⟨0, .here (by simpa using hreroute)⟩

/-- It is enough that the reroutes from which a chain ends as soon have not been met. -/
theorem LeadsIn.resolveFrom?_eq (h : g.LeadsIn count port source) {fresh : List String}
    (hfresh : ∀ k p s, g.LeadsIn k p s → k ≤ count → p.node ∈ g.rerouteNames → p.node ∈ fresh) :
    g.resolveFrom? fresh port = some source := by
  induction h generalizing fresh with
  | here hport =>
      rw [resolveFrom?, if_neg (by simpa using hport)]
  | @up count port origin source hreroute horigin hrest ih =>
      have hmem : port.node ∈ fresh :=
        hfresh _ _ _ (.up hreroute horigin hrest) (Nat.le_refl _) hreroute
      rw [resolveFrom?, if_pos (List.contains_iff_mem.2 hreroute), dif_pos hmem, horigin]
      refine ih ?_
      intro k p s hchain hk hp
      refine (List.mem_erase_of_ne ?_).2 (hfresh k p s hchain (Nat.le_succ_of_le hk) hp)
      -- the reroute itself is one step further away
      intro hnode
      have hcount := hchain.count_eq (.up hreroute horigin hrest) hnode
      omega

theorem resolveFrom?_eq_some_iff :
    g.resolveFrom? g.rerouteNames port = some source ↔ g.LeadsTo port source :=
  ⟨exists_leadsIn_of_resolveFrom?, fun ⟨_, h⟩ => h.resolveFrom?_eq fun _ _ _ _ _ hp => hp⟩

theorem resolve?_eq_some_iff : g.resolve? target = some source ↔ g.HasOrigin target source := by
  unfold resolve? HasOrigin
  split
  · rename_i hreroute
    have hmem := List.contains_iff_mem.1 hreroute
    simp [hmem]
  · rename_i hreroute
    have hmem : target.node ∉ g.rerouteNames := by simpa using hreroute
    simp only [Option.bind_eq_some_iff, resolveFrom?_eq_some_iff, hmem, not_false_eq_true,
      true_and]

theorem LeadsTo.unique (h : g.LeadsTo port source) (h' : g.LeadsTo port source') :
    source = source' := by
  rw [← resolveFrom?_eq_some_iff] at h h'
  exact Option.some.inj (h.symm.trans h')

theorem LeadsTo.not_reroute (h : g.LeadsTo port source) : source.node ∉ g.rerouteNames := by
  obtain ⟨_, h⟩ := h
  exact h.not_reroute

/-- A chain from an output ends at an output. -/
theorem LeadsTo.hasOutput (hg : g.WellFormed) {ty : DataType} (hport : g.HasOutput port ty)
    (h : g.LeadsTo port source) : ∃ ty', g.HasOutput source ty' := by
  obtain ⟨count, h⟩ := h
  induction h generalizing ty with
  | here _ => exact ⟨ty, hport⟩
  | @up count port origin source hreroute horigin hrest ih =>
      obtain ⟨n, hn, hlink⟩ := Option.bind_eq_some_iff.1 horigin
      obtain ⟨input, hinput, hlink⟩ := Option.bind_eq_some_iff.1 hlink
      have hsink := hg.port_of_mem (node?_eq_some hn).1
        (show input ∈ n.ports .input from List.mem_of_head? hinput)
      exact ih (hg.hasOutput_of_link hlink hsink)

theorem HasOrigin.hasOutput (hg : g.WellFormed) (h : g.HasOrigin target source) :
    ∃ ty, g.HasOutput source ty := by
  obtain ⟨-, origin, hlink, hchain⟩ := h
  obtain ⟨l, hl, rfl, rfl⟩ := linkOrigin?_eq_some hlink
  obtain ⟨output, sink, houtput, -, -⟩ := (hg.links_wellFormed l hl).typed
  exact hchain.hasOutput hg ⟨output, houtput, rfl⟩

end Dataflow.Graph
