import Dataflow.Proofs.Graph.Interposed
import Dataflow.Proofs.Graph.Values
import Dataflow.Proofs.Index.Orders

/-!
# Graphs that compute alike

`Graph.Alike` compares graphs by what a request can tell of them: apart from hidden reroutes they
have the same nodes, reroutes lead to the same outputs, the data of each input comes from the same
output, and the cells are the same. The order of the links is no part of this, so a graph is like
itself with its links in another order, and it is like itself with a reroute put into a link:
`Graph.alike_withLinks` and `Graph.Interposed.alike`. In alike graphs all outputs, those of hidden
reroutes apart, have the same values, whatever the nodes compute: `Graph.Alike.hasValueBy`.
-/

namespace Dataflow

open Ir

/-- Apart from reroutes of hidden names, the graphs have the same nodes and data takes the same
ways. -/
structure Graph.Alike (hidden : String → Prop) (g h : Graph) : Prop where
  left : g.WellFormed
  right : h.WellFormed
  nodes : ∀ n, ¬ hidden n.name → (n ∈ g.nodes ↔ n ∈ h.nodes)
  leftHidden : ∀ n ∈ g.nodes, hidden n.name → n.isReroute = true
  rightHidden : ∀ n ∈ h.nodes, hidden n.name → n.isReroute = true
  leadsTo_iff : ∀ port source, ¬ hidden port.node → (g.LeadsTo port source ↔ h.LeadsTo port source)
  resolve?_eq : ∀ target, g.resolve? target = h.resolve? target
  cells_eq : g.layout.cells = h.layout.cells

namespace Graph

theorem mem_rerouteNames_iff {g : Graph} {name : String} :
    name ∈ g.rerouteNames ↔ ∃ n ∈ g.nodes, n.isReroute = true ∧ n.name = name := by
  simp [rerouteNames, and_assoc]

namespace Alike

variable {hidden : String → Prop} {g h k : Graph} {port origin target : PortRef} {name : String}

theorem symm (hgh : g.Alike hidden h) : h.Alike hidden g where
  left := hgh.right
  right := hgh.left
  nodes n hn := (hgh.nodes n hn).symm
  leftHidden := hgh.rightHidden
  rightHidden := hgh.leftHidden
  leadsTo_iff port source hport := (hgh.leadsTo_iff port source hport).symm
  resolve?_eq target := (hgh.resolve?_eq target).symm
  cells_eq := hgh.cells_eq.symm

theorem trans (hgh : g.Alike hidden h) (hhk : h.Alike hidden k) : g.Alike hidden k where
  left := hgh.left
  right := hhk.right
  nodes n hn := (hgh.nodes n hn).trans (hhk.nodes n hn)
  leftHidden := hgh.leftHidden
  rightHidden := hhk.rightHidden
  leadsTo_iff port source hport :=
    (hgh.leadsTo_iff port source hport).trans (hhk.leadsTo_iff port source hport)
  resolve?_eq target := (hgh.resolve?_eq target).trans (hhk.resolve?_eq target)
  cells_eq := hgh.cells_eq.trans hhk.cells_eq

section

variable (hgh : g.Alike hidden h)

include hgh

/-! ## Ports and origins -/

theorem node?_eq (hname : ¬ hidden name) : g.node? name = h.node? name := by
  apply Option.ext
  intro n
  constructor
  · intro hn
    obtain ⟨hmem, rfl⟩ := node?_eq_some hn
    exact node?_of_mem hgh.right.names_nodup ((hgh.nodes n hname).1 hmem)
  · intro hn
    obtain ⟨hmem, rfl⟩ := node?_eq_some hn
    exact node?_of_mem hgh.left.names_nodup ((hgh.nodes n hname).2 hmem)

theorem hasOutput_iff (hport : ¬ hidden port.node) {ty : DataType} :
    g.HasOutput port ty ↔ h.HasOutput port ty := by
  unfold HasOutput Graph.port
  rw [hgh.node?_eq hport]

theorem mem_rerouteNames_iff (hname : ¬ hidden name) :
    name ∈ g.rerouteNames ↔ name ∈ h.rerouteNames := by
  rw [Graph.mem_rerouteNames_iff, Graph.mem_rerouteNames_iff]
  refine exists_congr fun n => ?_
  constructor
  · rintro ⟨hn, hreroute, rfl⟩
    exact ⟨(hgh.nodes n hname).1 hn, hreroute, rfl⟩
  · rintro ⟨hn, hreroute, rfl⟩
    exact ⟨(hgh.nodes n hname).2 hn, hreroute, rfl⟩

/-- Nodes that compute are not hidden. -/
theorem not_hidden (hname : name ∈ g.nodes.map Node.name) (hcomputes : name ∉ g.rerouteNames) :
    ¬ hidden name := by
  obtain ⟨n, hn, rfl⟩ := List.mem_map.1 hname
  exact fun hhidden =>
    hcomputes (Graph.mem_rerouteNames_iff.2 ⟨n, hn, hgh.leftHidden n hn hhidden, rfl⟩)

/-- Data comes from nodes that are not hidden. -/
theorem not_hidden_of_resolve? (horigin : g.resolve? target = some origin) :
    ¬ hidden origin.node := by
  have hsource := resolve?_eq_some_iff.1 horigin
  obtain ⟨-, _, -, hchain⟩ := resolve?_eq_some_iff.1 horigin
  obtain ⟨ty, p, hp, -⟩ := hsource.hasOutput hgh.left
  exact hgh.not_hidden (node_mem_of_port hp) hchain.not_reroute

/-! ## Values -/

/-- Outputs have the same values, whatever the nodes make of their inputs. -/
theorem hasValueBy {apply : Node → List Word → Option (List Word)}
    {supplied : List (PortRef × Value)} {cells : PortRef → Value} {w : Word}
    (hvalue : g.HasValueBy apply supplied cells port w) (hport : ¬ hidden port.node) :
    h.HasValueBy apply supplied cells port w := by
  induction hvalue with
  | supplied hlookup => exact .supplied hlookup
  | computed hfree hnode hlength _ hcells hresults hindex hw ih =>
      rw [hgh.node?_eq hport] at hnode
      refine .computed hfree hnode hlength ?_ ?_ hresults hindex hw
      · intro p x hx origin horigin
        rw [← hgh.resolve?_eq] at horigin
        exact ih p x hx origin horigin (hgh.not_hidden_of_resolve? horigin)
      · intro p x hx hnone
        rw [← hgh.resolve?_eq] at hnone
        exact hcells p x hx hnone

/-- So requests for them yield the same. -/
theorem yields {supplied : List (PortRef × Value)} {cells : PortRef → Value} {v : Value}
    (hyields : g.Yields supplied cells port v) (hport : ¬ hidden port.node) :
    h.Yields supplied cells port v := by
  obtain ⟨source, p, w, hsource, hp, hvalue, hv⟩ := hyields
  rw [resolveFrom?_eq_some_iff] at hsource
  have hvisible : ¬ hidden source.node := by
    obtain ⟨ty, q, hq, -⟩ := hsource.hasOutput hgh.left ⟨p, hp, rfl⟩
    exact hgh.not_hidden (node_mem_of_port hq) hsource.not_reroute
  refine ⟨source, p, w, resolveFrom?_eq_some_iff.2 ((hgh.leadsTo_iff port source hport).1 hsource),
    ?_, hgh.hasValueBy hvalue hvisible, hv⟩
  rw [← hp]
  unfold Graph.port
  rw [hgh.node?_eq hport]

end

end Alike

/-! ## Links in another order -/

/-- With its links in another order a graph is like itself. -/
theorem alike_withLinks {g : Graph} (hg : g.Reachable) {links : List Link}
    (hlinks : links.Perm g.links) {hidden : String → Prop}
    (hhidden : ∀ n ∈ g.nodes, hidden n.name → n.isReroute = true) :
    g.Alike hidden (g.withLinks links) := by
  have hsame := sameStructure_withLinks hg.wellFormed hlinks
  have hresolve := hsame.symm.resolve?_eq hg.declared hg.declared
  refine {
    left := hg.wellFormed
    right := wellFormed_withLinks hg.wellFormed hlinks
    nodes := fun _ _ => Iff.rfl
    leftHidden := hhidden
    rightHidden := hhidden
    leadsTo_iff := ?_
    resolve?_eq := hresolve
    cells_eq := StorageLayout.cells_build_congr rfl fun target => ?_ }
  · intro port source _
    exact exists_congr fun count =>
      ⟨hsame.symm.leadsIn hg.declared hg.declared, hsame.leadsIn hg.declared hg.declared⟩
  · rw [Index.dataOrigin?_build, Index.dataOrigin?_build, hresolve]

/-- The order of the links is all that differs then. -/
theorem withLinks_alike {g : Graph} (hg : g.Reachable) {links : List Link}
    (hlinks : links.Perm g.links) : (g.withLinks links).Alike (fun _ => False) g :=
  (alike_withLinks hg hlinks fun _ _ => False.elim).symm

/-! ## Reroutes put into links -/

theorem Interposed.alike {g g' : Graph} {l : Link} {name : String}
    (h : g.Interposed l name g') : g.Alike (· = name) g' := by
  obtain ⟨ty, hnodes⟩ := h.nodes
  refine {
    left := h.wellFormed
    right := h.wellFormed'
    nodes := ?_
    leftHidden := ?_
    rightHidden := ?_
    leadsTo_iff := fun _ _ hport => (h.leadsTo_iff hport).symm
    resolve?_eq := fun target => (h.resolve?_eq target).symm
    cells_eq := h.cells_eq.symm }
  · intro n hn
    rw [hnodes, List.mem_append, List.mem_singleton]
    refine (or_iff_left ?_).symm
    rintro rfl
    exact hn rfl
  · rintro n hn rfl
    exact absurd (List.mem_map_of_mem hn) h.fresh
  · intro n hn hname
    rw [hnodes, List.mem_append, List.mem_singleton] at hn
    rcases hn with hn | rfl
    · exact absurd (hname ▸ List.mem_map_of_mem hn) h.fresh
    · rfl

end Graph

end Dataflow
