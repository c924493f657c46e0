import Dataflow.Proofs.Backend.Building
import Dataflow.Proofs.Unit.Twins

/-!
# What units were made for

A unit keeps the traces of its making: `CompiledUnit.MadeFor` says that a settled backend built it
for a graph, up to the values authored and the order of the links. So the graph accepts its
request and computes it without a cycle, the functions of the computed nodes have passed the check
if there was one, and every run on suitable cells and values ends with the values of the requested
outputs: `CompiledUnit.MadeFor.exists_yields`.
-/

namespace Dataflow

open Ir

/-! ## Twins once more -/

/-- The host kinds of the nodes that are computed for the request keep their contract. -/
def Graph.HostsKeepContract (g : Graph) (r : UnitRequest) (verify : Bool)
    (supplied : List (PortRef × Value)) (cells : PortRef → Value) : Prop :=
  ∀ n ∈ g.nodes, g.Needs r n.name → ¬ r.Binds n.name → ∀ k, n.kind = .host k →
    g.KeepsContract supplied cells n verify

/-- The host kinds of the nodes that are computed for the request emit checked code where nothing
verifies it. -/
def Graph.HostsEmitChecked (g : Graph) (r : UnitRequest) (verify : Bool) : Prop :=
  verify = false → ∀ n ∈ g.nodes, g.Needs r n.name → ¬ r.Binds n.name → ∀ k, n.kind = .host k →
    n.EmitsChecked

namespace Node

variable {n m : Node}

theorem EmitsChecked.of_identity (h : n.EmitsChecked) (hid : n.identity = m.identity)
    (hn : n.Declared) (hm : m.Declared) : m.EmitsChecked :=
  fun f hf => h f (isFunction_of_identity hid.symm hm hn hf)

end Node

namespace Graph.Twins

variable {g h : Graph} {r : UnitRequest}

/-- The values of inputs are the same in both graphs. -/
theorem inputsHave (hgh : g.Twins h) {supplied : List (PortRef × Value)} {cells : PortRef → Value}
    {n m : Node} (hid : n.identity = m.identity) (hn : n.Declared) (hm : m.Declared)
    {args : List Word}
    (hargs : List.Forall₂ (EntryContext.InputHas g supplied cells n) n.inputs args) :
    List.Forall₂ (EntryContext.InputHas h supplied cells m) m.inputs args := by
  obtain ⟨hlength, hhave⟩ := List.forall₂_iff_zip.1 hargs
  refine List.forall₂_iff_zip.2 ⟨?_, ?_⟩
  · rw [← hlength, ← List.length_map (f := Port.spec), ← List.length_map (f := Port.spec)]
    exact congrArg List.length (Node.specs_of_identity hid.symm hm hn .input)
  · intro q x hx
    obtain ⟨p, hp, href, htype⟩ := Node.exists_input_of_identity hid hn hm hx
    obtain ⟨horigin, hcell, hscalar⟩ := hhave hp
    rw [href, hgh.resolve?_eq] at horigin hcell
    rw [htype] at hscalar
    exact ⟨fun origin hresolve => hgh.hasValue (horigin origin hresolve), hcell, hscalar⟩

theorem ends (hgh : g.Twins h) {supplied : List (PortRef × Value)} {cells : PortRef → Value}
    {n m : Node} (hid : n.identity = m.identity) (hn : n.Declared) (hm : m.Declared)
    (hends : g.Ends supplied cells n) : h.Ends supplied cells m := by
  intro args hargs
  rw [← (Prod.mk.inj hid).2]
  exact hends args (hgh.symm.inputsHave hid.symm hm hn hargs)

theorem evaluates (hgh : g.Twins h) {supplied : List (PortRef × Value)} {cells : PortRef → Value}
    {n m : Node} (hid : n.identity = m.identity) (hn : n.Declared) (hm : m.Declared)
    (hevaluates : g.Evaluates supplied cells n) : h.Evaluates supplied cells m := by
  obtain ⟨args, hargs, hresults⟩ := hevaluates
  rw [(Prod.mk.inj hid).2] at hresults
  exact ⟨args, hgh.inputsHave hid hn hm hargs, hresults⟩

/-- No cell symbol of the graph starts like a function of a unit. -/
theorem unreserved (hgh : g.Twins h)
    (hnames : ∀ n ∈ g.nodes, ¬ "nodejit".toList <+: (Symbol.sanitize n.name).toList) :
    ∀ n ∈ h.nodes, ¬ "nodejit".toList <+: (Symbol.sanitize n.name).toList := by
  intro m hm
  obtain ⟨n, hn, hid, -⟩ := hgh.exists_node hm
  rw [← (Prod.mk.inj hid).1]
  exact hnames n hn

/-- The nodes that a request has computed emit code that passes the check in both graphs. -/
theorem checked (hgh : g.Twins h)
    (hchecked : ∀ n ∈ g.nodes, g.Needs r n.name → ¬ r.Binds n.name → n.EmitsChecked) :
    ∀ n ∈ h.nodes, h.Needs r n.name → ¬ r.Binds n.name → n.EmitsChecked := by
  intro m hm hneeds hfree
  obtain ⟨n, hn, hid, hdeclared, hdeclared'⟩ := hgh.exists_node hm
  have hname : n.name = m.name := (Prod.mk.inj hid).1
  rw [← hname] at hneeds hfree
  exact (hchecked n hn (hgh.symm.needs hneeds) hfree).of_identity hid hdeclared hdeclared'

/-- A backend is settled with the cells of either graph. -/
theorem settled (hgh : g.Twins h) {b : Backend} (hb : b.Settled g.layout) :
    b.Settled h.layout := by
  refine { hb with ready := ⟨hb.ready.apart, ?_⟩, cells := ?_ }
  · intro cell hcell
    obtain ⟨cell', hcell', hplace⟩ := hgh.symm.exists_cell hcell
    rw [← (Prod.mk.inj (Prod.mk.inj hplace).2).1]
    exact hb.ready.cells cell' hcell'
  · intro name hname
    obtain ⟨cell, hcell, rfl⟩ := hb.cells name hname
    obtain ⟨cell', hcell', hplace⟩ := hgh.exists_cell hcell
    exact ⟨cell', hcell', (Prod.mk.inj (Prod.mk.inj hplace).2).1.symm⟩

end Graph.Twins

namespace CompiledUnit

/-- The unit was built for a twin of the graph by a settled backend, which checks the types of
code or does not. -/
def MadeFor (u : CompiledUnit) (g : Graph) (verify : Bool) : Prop :=
  ∃ (h : Graph) (b b' : Backend) (generated : GeneratedUnit) (bank : Nat), h.Twins g ∧
    b.Settled h.layout ∧ b.verify = verify ∧
    b.build h (Index.build h) h.layout u.request = (.ok generated, b') ∧
    u = .ofGenerated generated bank

namespace MadeFor

variable {u : CompiledUnit} {g g' : Graph} {verify : Bool}

theorem twin (h : u.MadeFor g verify) (hgg : g.Twins g') : u.MadeFor g' verify := by
  obtain ⟨k, b, b', generated, bank, hkg, hrest⟩ := h
  exact ⟨k, b, b', generated, bank, hkg.trans hgg, hrest⟩

/-- The graph accepts the request of the unit and computes it without a cycle. If code is checked,
then the nodes computed for the unit emit code that passes. -/
theorem accepts (h : u.MadeFor g verify)
    (hnames : ∀ n ∈ g.nodes, ¬ "nodejit".toList <+: (Symbol.sanitize n.name).toList) :
    g.Accepts u.request ∧ g.Acyclic u.request ∧ (verify = true →
      ∀ n ∈ g.nodes, g.Needs u.request n.name → ¬ u.request.Binds n.name → n.EmitsChecked) := by
  obtain ⟨k, b, b', generated, bank, hkg, hb, rfl, hbuild, -⟩ := h
  obtain ⟨haccepts, hacyclic, hpasses⟩ := (hb.exists_build_iff hkg.left
    (Graph.unreserved_layout (hkg.symm.unreserved hnames))).1 ⟨_, _, hbuild⟩
  exact ⟨hkg.accepts haccepts, hkg.acyclic hacyclic, fun hverify =>
    hkg.checked fun n hn hneeds hfree => (hpasses hverify n hn hneeds hfree).1⟩

section

variable (h : u.MadeFor g verify) (hreroutes : g.ReroutesTyped)
  {bank : Bank} {cells : PortRef → Value} (hcells : g.layout.Holds bank cells)
  {values : List Value}
  (hvalues : List.Forall₂ (fun port v => g.HasOutput port v.dataType) u.request.graphInputs values)

include h hreroutes hcells hvalues

/-- Whenever the cells hold values and values are supplied for the designated outputs, the unit
returns the values of the requested outputs. -/
theorem exists_yields
    (hhost : g.HostsKeepContract u.request verify (u.request.graphInputs.zip values) cells) :
    ∃ vs, u.invoke bank values = .ok vs ∧
      List.Forall₂ (g.Yields (u.request.graphInputs.zip values) cells) u.request.outputs vs := by
  obtain ⟨k, b, b', generated, number, hkg, -, rfl, hbuild, hu⟩ := h
  have hgk := hkg.symm
  generalize hr : u.request = r at hbuild hvalues hhost ⊢
  obtain ⟨b₁, hgenerate, hcompile⟩ := Backend.build_eq_ok hbuild
  obtain ⟨hrun, hb₁⟩ := Backend.generate_eq_ok hgenerate
  have hverify : b₁.verify = b.verify := by rw [hb₁]
  have hcontract : ∀ n ∈ k.nodes, n.name ∈ generated.nodeOrder → ∀ host, n.kind = .host host →
      k.KeepsContract (r.graphInputs.zip values) cells n b₁.verify := by
    intro n hn horder host hhostKind
    obtain ⟨hneeds, hfree⟩ := (mem_nodeOrder_iff hkg.left hrun hn).1 horder
    obtain ⟨m, hm, hid, hdeclared, hdeclared'⟩ := hgk.exists_node hn
    obtain ⟨hname, hkind⟩ := Prod.mk.inj hid
    rw [← hname] at hneeds hfree
    have hkeeps := hhost m hm (hkg.needs hneeds) hfree host (hkind.trans hhostKind)
    rw [hverify]
    exact ⟨fun hoff => (hkeeps.checked hoff).of_identity hid hdeclared hdeclared',
      hgk.ends hid hdeclared hdeclared' hkeeps.ends⟩
  obtain ⟨vs, hinvoke, hyields⟩ := CompiledUnit.exists_yields hkg.left
    (hgk.reroutesTyped hreroutes) hgenerate hcompile (hgk.holds hcells)
    (hvalues.imp fun _ _ => hgk.hasOutput) hcontract number
  exact ⟨vs, hu ▸ hinvoke, hyields.imp fun _ _ => hkg.yields⟩

/-- If the unit has returned, then the nodes computed for it have results on the values of their
inputs. -/
theorem evaluates_of_invoke (hhost : g.HostsEmitChecked u.request verify) {vs : List Value}
    (hinvoke : u.invoke bank values = .ok vs) {m : Node} (hm : m ∈ g.nodes)
    (hneeds : g.Needs u.request m.name) (hfree : ¬ u.request.Binds m.name) :
    g.Evaluates (u.request.graphInputs.zip values) cells m := by
  obtain ⟨k, b, b', generated, number, hkg, -, rfl, hbuild, hu⟩ := h
  have hgk := hkg.symm
  rw [hu] at hinvoke
  generalize hr : u.request = r at hbuild hvalues hhost hneeds hfree ⊢
  obtain ⟨b₁, hgenerate, hcompile⟩ := Backend.build_eq_ok hbuild
  obtain ⟨hrun, hb₁⟩ := Backend.generate_eq_ok hgenerate
  have hchecked : b₁.verify = false → ∀ n ∈ k.nodes, n.name ∈ generated.nodeOrder →
      ∀ host, n.kind = .host host → n.EmitsChecked := by
    intro hoff n hn horder host hhostKind
    obtain ⟨hneeds, hfree⟩ := (mem_nodeOrder_iff hkg.left hrun hn).1 horder
    obtain ⟨m, hm, hid, hdeclared, hdeclared'⟩ := hgk.exists_node hn
    obtain ⟨hname, hkind⟩ := Prod.mk.inj hid
    rw [← hname] at hneeds hfree
    rw [hb₁] at hoff
    exact (hhost hoff m hm (hkg.needs hneeds) hfree host (hkind.trans hhostKind)).of_identity hid
      hdeclared hdeclared'
  obtain ⟨n, hn, hid, hdeclared, hdeclared'⟩ := hkg.exists_node hm
  have horder : n.name ∈ generated.nodeOrder := by
    rw [mem_nodeOrder_iff hkg.left hrun hn, (Prod.mk.inj hid).1]
    exact ⟨hgk.needs hneeds, hfree⟩
  exact hkg.evaluates hid hdeclared hdeclared' (CompiledUnit.evaluates_of_invoke hkg.left
    (hgk.holds hcells) (hvalues.imp fun _ _ => hgk.hasOutput) (hgk.reroutesTyped hreroutes) hrun
    hcompile hchecked hinvoke hn horder)

end

end MadeFor

end CompiledUnit

end Dataflow
