import Dataflow.Proofs.Backend.Acceptance
import Dataflow.Proofs.Unit.Completeness

/-!
# Twins: graphs that only differ in authored values and in the order of links

What a graph means does not depend on the values authored for its inputs, nor on the order in
which its links were made: twins accept the same requests, have cells at the same places and
give their outputs the same values. A unit made with the index of one graph and the cells of
another, both in agreement with the graph it is made for, is the unit of a twin with an index and
cells of its own: `Backend.build_of_agrees`.
-/

namespace Dataflow

open Ir Relation

/-! ## Nodes of one identity -/

namespace Node

variable {n m : Node} (hid : n.identity = m.identity) (hn : n.Declared) (hm : m.Declared)

include hid hn hm

theorem specs_of_identity (role : PortRole) :
    (n.ports role).map Port.spec = (m.ports role).map Port.spec := by
  rw [hn.specs_eq, hm.specs_eq, (Prod.mk.inj hid).2]

theorem portTypes_of_identity (role : PortRole) : n.portTypes role = m.portTypes role := by
  have hspecs : ∀ k : Node, k.portTypes role =
      ((k.ports role).map Port.spec).mapM fun s =>
        nativeType ⟨k.name, s.identifier⟩ s.dataType := by
    intro k
    rw [List.mapM_map]
    rfl
  rw [hspecs, hspecs, specs_of_identity hid hn hm, (Prod.mk.inj hid).1]

theorem outputIndex?_of_identity (identifier : String) :
    n.outputIndex? identifier = m.outputIndex? identifier := by
  have hspecs : ∀ k : Node, k.outputIndex? identifier =
      ((k.ports .output).map Port.spec).findIdx? fun s => s.identifier == identifier := by
    intro k
    rw [List.findIdx?_map]
    rfl
  rw [hspecs, hspecs, specs_of_identity hid hn hm]

/-- Functions are made from the name of a node, its kind and the ports it declares. -/
theorem isFunction_of_identity {f : Function} (h : n.IsFunction f) : m.IsFunction f := by
  obtain ⟨id, name, inputs, outputs, hinputs, houtputs, hfunction⟩ := h
  obtain ⟨hname, hkind⟩ := Prod.mk.inj hid
  rw [portTypes_of_identity hid hn hm] at hinputs houtputs
  refine ⟨id, name, inputs, outputs, hinputs, houtputs, ?_⟩
  unfold function at hfunction ⊢
  rw [← hname, ← hkind]
  exact hfunction

/-- The inputs stand at the same places with the same addresses. -/
theorem exists_input_of_identity {args : List Word} {q : Port} {x : Word}
    (hx : (q, x) ∈ m.inputs.zip args) :
    ∃ p, (p, x) ∈ n.inputs.zip args ∧ n.portRef p = m.portRef q ∧ p.dataType = q.dataType := by
  have hspecs : n.inputs.map Port.spec = m.inputs.map Port.spec :=
    specs_of_identity hid hn hm .input
  have hname := (Prod.mk.inj hid).1
  have hmem : (q.spec, x) ∈ (m.inputs.map Port.spec).zip args := by
    rw [List.zip_map_left]
    exact List.mem_map.2 ⟨(q, x), hx, rfl⟩
  rw [← hspecs, List.zip_map_left] at hmem
  obtain ⟨⟨p, y⟩, hp, hpair⟩ := List.mem_map.1 hmem
  obtain ⟨hspec, rfl⟩ := Prod.mk.inj hpair
  exact ⟨p, hp, congrArg₂ PortRef.mk hname (congrArg PortSpec.identifier hspec),
    congrArg PortSpec.dataType hspec⟩

end Node

/-! ## Twins -/

namespace Graph

variable {g h k : Graph} {port source : PortRef} {ty : DataType} {r : UnitRequest}

/-- Two well-formed graphs with the ports that their kinds declare, of one structure and one
version. -/
structure Twins (g h : Graph) : Prop where
  left : g.WellFormed
  right : h.WellFormed
  leftDeclared : ∀ n ∈ g.nodes, n.Declared
  rightDeclared : ∀ n ∈ h.nodes, n.Declared
  version : g.version = h.version
  same : g.SameStructure h

theorem Twins.symm (hgh : g.Twins h) : h.Twins g :=
  ⟨hgh.right, hgh.left, hgh.rightDeclared, hgh.leftDeclared, hgh.version.symm, hgh.same.symm⟩

theorem Twins.trans (hgh : g.Twins h) (hhk : h.Twins k) : g.Twins k :=
  ⟨hgh.left, hhk.right, hgh.leftDeclared, hhk.rightDeclared, hgh.version.trans hhk.version,
    hgh.same.trans hhk.same⟩

theorem Agrees.twins (hgh : g.Agrees h) : g.Twins h :=
  ⟨hgh.left.wellFormed, hgh.right.wellFormed, hgh.left.declared, hgh.right.declared, hgh.version,
    hgh.same⟩

/-- With its links in the order of an agreeing graph, a graph is its own twin. -/
theorem Agrees.twins_relinked (hgh : g.Agrees h) : (g.relinked h).Twins g where
  left := hgh.relinked_wellFormed
  right := hgh.left.wellFormed
  leftDeclared := hgh.left.declared
  rightDeclared := hgh.left.declared
  version := version_relinked g h
  same := hgh.relinked_same.trans hgh.same.symm

section

variable (hgh : g.Twins h)

include hgh

theorem Twins.exists_node {m : Node} (hm : m ∈ h.nodes) :
    ∃ n ∈ g.nodes, n.identity = m.identity ∧ n.Declared ∧ m.Declared := by
  have hmem : m.identity ∈ g.nodes.map Node.identity := by
    rw [hgh.same.nodes]
    exact List.mem_map_of_mem hm
  obtain ⟨n, hn, hid⟩ := List.mem_map.1 hmem
  exact ⟨n, hn, hid, hgh.leftDeclared n hn, hgh.rightDeclared m hm⟩

theorem Twins.resolve?_eq (target : PortRef) : g.resolve? target = h.resolve? target :=
  hgh.same.resolve?_eq hgh.leftDeclared hgh.rightDeclared target

theorem Twins.leadsTo (hchain : g.LeadsTo port source) : h.LeadsTo port source := by
  obtain ⟨count, hchain⟩ := hchain
  exact ⟨count, hgh.same.leadsIn hgh.leftDeclared hgh.rightDeclared hchain⟩

theorem Twins.hasOutput (houtput : g.HasOutput port ty) : h.HasOutput port ty := by
  obtain ⟨p, hp, rfl⟩ := houtput
  obtain ⟨q, hq, hspec⟩ := hgh.same.exists_port hgh.leftDeclared hgh.rightDeclared hp
  exact ⟨q, hq, congrArg PortSpec.dataType hspec⟩

theorem Twins.reroutesTyped (hreroutes : g.ReroutesTyped) : h.ReroutesTyped := by
  intro m hm hreroute input hinput output houtput
  obtain ⟨n, hn, hid, hdeclared, hdeclared'⟩ := hgh.exists_node hm
  have hinputs := Node.specs_of_identity hid hdeclared hdeclared' .input
  have houtputs := Node.specs_of_identity hid hdeclared hdeclared' .output
  have hkind : n.kind = m.kind := (Prod.mk.inj hid).2
  have hhead : (n.inputs.map Port.spec).head? = some input.spec := by
    rw [show n.inputs.map Port.spec = m.inputs.map Port.spec from hinputs, List.head?_map, hinput]
    rfl
  rw [List.head?_map] at hhead
  obtain ⟨input', hinput', hspec⟩ := Option.map_eq_some_iff.1 hhead
  have hmem : output.spec ∈ n.outputs.map Port.spec := by
    rw [show n.outputs.map Port.spec = m.outputs.map Port.spec from houtputs]
    exact List.mem_map_of_mem houtput
  obtain ⟨output', houtput', hspec'⟩ := List.mem_map.1 hmem
  calc output.dataType = output'.dataType := (congrArg PortSpec.dataType hspec').symm
    _ = input'.dataType :=
        hreroutes n hn (by rw [Node.isReroute, hkind]; exact hreroute) input' hinput' output'
          houtput'
    _ = input.dataType := congrArg PortSpec.dataType hspec

/-! ### Values -/

variable {supplied : List (PortRef × Value)} {cells : PortRef → Value}

theorem Twins.hasValue {w : Word} (hvalue : g.HasValue supplied cells port w) :
    h.HasValue supplied cells port w := by
  induction hvalue with
  | supplied hlookup => exact .supplied hlookup
  | @computed port n args results index w hfree hnode hlength _ hcells heval hindex hresult ih =>
      obtain ⟨m, hm, hid⟩ := hgh.same.exists_node hnode
      have hn := hgh.leftDeclared n (node?_eq_some hnode).1
      have hm' := hgh.rightDeclared m (node?_eq_some hm).1
      have hlength' : m.inputs.length = args.length := by
        rw [← hlength, ← List.length_map (f := Port.spec), ← List.length_map (f := Port.spec)]
        exact congrArg List.length (Node.specs_of_identity hid hm' hn .input)
      have hkind : m.kind = n.kind := (Prod.mk.inj hid).2
      refine .computed hfree hm hlength' ?_ ?_ (hkind ▸ heval)
        ((Node.outputIndex?_of_identity hid hm' hn _).trans hindex) hresult
      · intro q x hx origin horigin
        obtain ⟨p, hp, href, -⟩ := Node.exists_input_of_identity hid.symm hn hm' hx
        rw [← hgh.resolve?_eq, ← href] at horigin
        exact ih p x hp origin horigin
      · intro q x hx hnone
        obtain ⟨p, hp, href, -⟩ := Node.exists_input_of_identity hid.symm hn hm' hx
        rw [← hgh.resolve?_eq, ← href] at hnone
        rw [← href]
        exact hcells p x hp hnone

theorem Twins.yields {v : Value} (hyields : g.Yields supplied cells port v) :
    h.Yields supplied cells port v := by
  obtain ⟨source, p, w, hsource, hp, hw, hv⟩ := hyields
  obtain ⟨q, hq, hspec⟩ := hgh.same.exists_port hgh.leftDeclared hgh.rightDeclared hp
  have htype : q.dataType = p.dataType := congrArg PortSpec.dataType hspec
  exact ⟨source, q, w, resolveFrom?_eq_some_iff.2
    (hgh.leadsTo (resolveFrom?_eq_some_iff.1 hsource)), hq, hgh.hasValue hw, htype ▸ hv⟩

/-! ### Requests -/

theorem Twins.reads {a b : String} (hreads : g.Reads r a b) : h.Reads r a b := by
  obtain ⟨hfree, target, source, horigin, ha, hb⟩ := hreads
  exact ⟨hfree, target, source,
    hgh.same.hasOrigin hgh.leftDeclared hgh.rightDeclared horigin, ha, hb⟩

theorem Twins.needs {name : String} (hneeds : g.Needs r name) : h.Needs r name := by
  obtain ⟨port, hport, source, hsource, hreads⟩ := hneeds
  exact ⟨port, hport, source, hgh.leadsTo hsource,
    ReflTransGen.mono (fun _ _ hab => hgh.reads hab) _ _ hreads⟩

theorem Twins.acyclic (hacyclic : g.Acyclic r) : h.Acyclic r := fun name hneeds hcycle =>
  hacyclic name (hgh.symm.needs hneeds)
    (TransGen.mono (fun _ _ hab => hgh.symm.reads hab) _ _ hcycle)

theorem Twins.accepts (haccepts : g.Accepts r) : h.Accepts r := by
  have hnative : ∀ port, g.HasNativeOutput port → h.HasNativeOutput port :=
    fun port ⟨ty, houtput, hty⟩ => ⟨ty, hgh.hasOutput houtput, hty⟩
  refine {
    requested := haccepts.requested
    outputs := ?_
    designated := ?_
    complete := ?_
    emits := ?_ }
  · intro port hport
    obtain ⟨houtput, source, hsource⟩ := haccepts.outputs port hport
    exact ⟨hnative port houtput, source, hgh.leadsTo hsource⟩
  · intro port hport
    obtain ⟨houtput, hcomputing⟩ := haccepts.designated port hport
    exact ⟨hnative port houtput, hgh.same.rerouteNames_eq ▸ hcomputing⟩
  · intro m hm hbinds q hq
    obtain ⟨n, hn, hid, hdeclared, hdeclared'⟩ := hgh.exists_node hm
    have hname : n.name = m.name := (Prod.mk.inj hid).1
    have hmem : q.spec ∈ n.outputs.map Port.spec := by
      rw [show n.outputs.map Port.spec = m.outputs.map Port.spec from
        Node.specs_of_identity hid hdeclared hdeclared' .output]
      exact List.mem_map_of_mem hq
    obtain ⟨p, hp, hspec⟩ := List.mem_map.1 hmem
    have href : n.portRef p = m.portRef q :=
      congrArg₂ PortRef.mk hname (congrArg PortSpec.identifier hspec)
    exact href ▸ haccepts.complete n hn (hname ▸ hbinds) p hp
  · intro m hm hneeds hfree
    obtain ⟨n, hn, hid, hdeclared, hdeclared'⟩ := hgh.exists_node hm
    have hname : n.name = m.name := (Prod.mk.inj hid).1
    have hemits := haccepts.emits n hn (hname ▸ hgh.symm.needs hneeds) (hname ▸ hfree)
    obtain ⟨f, hf⟩ := Node.exists_isFunction_iff.2 hemits
    exact Node.exists_isFunction_iff.1
      ⟨f, Node.isFunction_of_identity hid hdeclared hdeclared' hf⟩

end

end Graph

/-! ## Cells -/

/-- Where a cell is, apart from its first contents. -/
def StorageCell.place (cell : StorageCell) : PortRef × String × DataType :=
  (cell.port, cell.symbol, cell.dataType)

namespace StorageLayout

variable {g h : Graph}

/-- What an input brings to the layout of the cells. -/
def key (input : Node × Port) : String × PortSpec × Bool :=
  (input.1.name, input.2.spec, (initial? input.2).isSome)

theorem place_addCells {cells cells' : List StorageCell} {inputs inputs' : List (Node × Port)}
    (hcells : cells.map StorageCell.place = cells'.map StorageCell.place)
    (hinputs : inputs.map key = inputs'.map key) :
    (addCells cells inputs).map StorageCell.place =
      (addCells cells' inputs').map StorageCell.place := by
  have hforall := forall₂_of_map_eq hinputs
  clear hinputs
  induction hforall generalizing cells cells' with
  | nil => exact hcells
  | @cons input input' inputs inputs' hfirst _ ih =>
      obtain ⟨n, p⟩ := input
      obtain ⟨m, q⟩ := input'
      obtain ⟨hname, hrest⟩ := Prod.mk.inj hfirst
      obtain ⟨hspec, hinitial⟩ := Prod.mk.inj hrest
      obtain ⟨hidentifier, htype⟩ := PortSpec.mk.inj hspec
      change n.name = m.name at hname
      change p.identifier = q.identifier at hidentifier
      change p.dataType = q.dataType at htype
      change (initial? p).isSome = (initial? q).isSome at hinitial
      unfold addCells
      cases hp : initial? p with
      | none =>
          rw [hp, Option.isSome_none, eq_comm, Option.isSome_eq_false_iff,
            Option.isNone_iff_eq_none] at hinitial
          rw [hinitial]
          exact ih hcells
      | some v =>
          rw [hp, Option.isSome_some, eq_comm, Option.isSome_iff_exists] at hinitial
          obtain ⟨v', hq⟩ := hinitial
          rw [hq]
          apply ih
          have hsymbols : cells.map StorageCell.symbol = cells'.map StorageCell.symbol := by
            have h := congrArg (List.map fun place => place.2.1) hcells
            rwa [List.map_map, List.map_map] at h
          rw [List.map_append, List.map_append, hcells, hsymbols]
          simp [StorageCell.place, Node.portRef, hname, hidentifier, htype]

end StorageLayout

namespace Graph

variable {g h : Graph}

/-- The unconnected inputs, as the structure of the graph has them. -/
theorem keys_allUnlinkedInputs (hg : g.WellFormed) (hdeclared : ∀ n ∈ g.nodes, n.Declared) :
    ((Index.build g).allUnlinkedInputs g).map StorageLayout.key =
      ((g.nodes.map Node.identity).filter fun id => !id.2.isReroute).flatMap fun id =>
        (id.2.inputs.filter fun s => (g.resolve? ⟨id.1, s.identifier⟩).isNone).map fun s =>
          (id.1, s, s.dataType.zero.isSome) := by
  unfold Index.allUnlinkedInputs
  rw [List.filter_map, List.flatMap_map, List.map_flatMap]
  apply List.flatMap_congr
  intro n hn
  have hmem := (List.mem_filter.1 hn).1
  change _ = (n.kind.inputs.filter _).map _
  rw [← (hdeclared n hmem).inputs, List.filter_map, List.map_map, List.map_map]
  unfold Index.unlinkedInputs
  simp only [Index.dataOrigin?_build]
  apply List.map_congr_left
  intro p hp
  have hholds := (hg.nodes_wellFormed n hmem).inputs_hold p (List.mem_filter.1 hp).1
  have hinitial : (StorageLayout.initial? p).isSome = p.dataType.zero.isSome := by
    unfold StorageLayout.initial?
    cases hzero : p.dataType.zero with
    | none =>
        rw [hzero] at hholds
        rw [Option.map_eq_none_iff.1 hholds]
        rfl
    | some v => cases p.value <;> rfl
  exact congrArg (fun b => (n.name, p.spec, b)) hinitial

/-- Twins have cells at the same places. -/
theorem Twins.places_eq (hgh : g.Twins h) :
    g.layout.cells.map StorageCell.place = h.layout.cells.map StorageCell.place := by
  apply StorageLayout.place_addCells rfl
  rw [keys_allUnlinkedInputs hgh.left hgh.leftDeclared,
    keys_allUnlinkedInputs hgh.right hgh.rightDeclared, hgh.same.nodes]
  simp only [hgh.resolve?_eq]

theorem Twins.exists_cell (hgh : g.Twins h) {cell : StorageCell} (hcell : cell ∈ g.layout.cells) :
    ∃ cell' ∈ h.layout.cells, cell'.place = cell.place := by
  have hmem : cell.place ∈ h.layout.cells.map StorageCell.place := by
    rw [← hgh.places_eq]
    exact List.mem_map_of_mem hcell
  exact List.mem_map.1 hmem

theorem Twins.holds (hgh : g.Twins h) {bank : Bank} {cells : PortRef → Value}
    (hcells : g.layout.Holds bank cells) : h.layout.Holds bank cells := by
  intro cell hcell
  obtain ⟨cell', hcell', hplace⟩ := hgh.symm.exists_cell hcell
  obtain ⟨hport, hrest⟩ := Prod.mk.inj hplace
  obtain ⟨hsymbol, htype⟩ := Prod.mk.inj hrest
  rw [← hport, ← hsymbol, ← htype]
  exact hcells cell' hcell'

theorem Twins.symbol_cell? (hgh : g.Twins h) (port : PortRef) :
    (g.layout.cell? port).map StorageCell.symbol =
      (h.layout.cell? port).map StorageCell.symbol := by
  have hplaces : ∀ cells : List StorageCell,
      (cells.find? fun c => c.port == port).map StorageCell.symbol =
        ((cells.map StorageCell.place).find? fun place => place.1 == port).map
          fun place => place.2.1 := by
    intro cells
    rw [List.find?_map, Option.map_map]
    rfl
  unfold StorageLayout.cell?
  rw [hplaces, hplaces, hgh.places_eq]

end Graph

/-! ## Units -/

variable {g h k : Graph} {r : UnitRequest}

theorem generateUnit_of_agrees (hh : h.Agrees g) (hk : k.Agrees g) (r : UnitRequest)
    (sequence : Nat) :
    generateUnit g (Index.build h) k.layout r sequence =
      generateUnit (g.relinked h) (Index.build (g.relinked h)) (g.relinked h).layout r
        sequence := by
  have htwins : k.Twins (g.relinked h) := hk.twins.trans hh.symm.twins_relinked.symm
  rw [hh.symm.index_relinked]
  exact generateUnit_congr (UnitPlan.sameSources_relinked hk) (fun _ => rfl) htwins.symbol_cell? r
    sequence

/-- With the index and the cells of agreeing graphs, a backend builds the unit of a twin. -/
theorem Backend.build_of_agrees (hh : h.Agrees g) (hk : k.Agrees g) (b : Backend)
    (r : UnitRequest) :
    b.build g (Index.build h) k.layout r =
      b.build (g.relinked h) (Index.build (g.relinked h)) (g.relinked h).layout r := by
  unfold build generate
  simp only [generateUnit_of_agrees hh hk]

end Dataflow
