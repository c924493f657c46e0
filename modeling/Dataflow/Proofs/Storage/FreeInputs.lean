import Dataflow.Proofs.Backend.Independence
import Dataflow.Proofs.Graph.Agreement
import Dataflow.Proofs.Unit.Emitted

/-!
# Which inputs have cells

The cells of a well-formed graph are those of its free inputs: inputs with a native type, on
computing nodes, that no data reaches. Each of them has one cell, of its own type, which starts
from the authored value. Graphs that agree have the same free inputs, and the index of either
serves to lay out the cells of the other.
-/

namespace Dataflow

/-- The graph has an input of this type at the address, on a computing node, that no data
reaches, and the type has a native image. -/
structure Graph.FreeInput (g : Graph) (port : PortRef) (ty : DataType) : Prop where
  input : ∃ p, g.port port .input = .ok p ∧ p.dataType = ty
  native : ty ≠ .handle
  computing : port.node ∉ g.rerouteNames
  unconnected : ∀ source, ¬ g.HasOrigin port source

namespace Graph

variable {g h : Graph} {port : PortRef} {ty : DataType}

theorem Agrees.freeInput (hgh : g.Agrees h) (hfree : g.FreeInput port ty) :
    h.FreeInput port ty := by
  obtain ⟨p, hp, htype⟩ := hfree.input
  obtain ⟨q, hq, hspec⟩ := hgh.same.exists_port hgh.left.declared hgh.right.declared hp
  refine ⟨⟨q, hq, ?_⟩, hfree.native, hgh.same.rerouteNames_eq ▸ hfree.computing, ?_⟩
  · rw [← htype]
    exact congrArg PortSpec.dataType hspec
  · intro source horigin
    exact hfree.unconnected source
      (hgh.same.symm.hasOrigin hgh.right.declared hgh.left.declared horigin)

theorem WellFormed.not_mem_rerouteNames (hg : g.WellFormed) {n : Node} (hn : n ∈ g.nodes)
    (hcomputes : n.isReroute = false) : n.name ∉ g.rerouteNames := by
  intro hmem
  obtain ⟨m, hm, hname, hyes⟩ := mem_of_rerouteNames_contains (List.contains_iff_mem.2 hmem)
  rw [eq_of_name_eq hg.names_nodup hm hn hname, hcomputes] at hyes
  contradiction

/-- An input of a native type holds a value of its type. -/
theorem WellFormed.exists_value (hg : g.WellFormed) {p : Port} (hp : g.port port .input = .ok p)
    (hnative : p.dataType ≠ .handle) : ∃ v, p.value = some v ∧ v.dataType = p.dataType := by
  obtain ⟨n, hn, hport⟩ := port_eq_ok_iff.1 hp
  have hholds := (hg.nodes_wellFormed n (node?_eq_some hn).1).inputs_hold p
    (Node.port?_eq_some hport).1
  have hzero : p.dataType.zero.map (fun _ => p.dataType) = some p.dataType := by
    cases hty : p.dataType with
    | handle => exact absurd hty hnative
    | _ => rfl
  rw [hzero] at hholds
  exact Option.map_eq_some_iff.1 hholds

theorem WellFormed.authored?_of_freeInput (hg : g.WellFormed) (hfree : g.FreeInput port ty) :
    ∃ v, g.authored? port = some v ∧ v.dataType = ty := by
  obtain ⟨p, hp, rfl⟩ := hfree.input
  obtain ⟨v, hv, htype⟩ := hg.exists_value hp hfree.native
  refine ⟨v, ?_, htype⟩
  unfold authored?
  rw [hp]
  exact hv

end Graph

namespace StorageLayout

variable {g h : Graph} {port : PortRef} {ty : DataType} {cell : StorageCell}

theorem mem_allUnlinkedInputs {ix : Index} {n : Node} {p : Port}
    (hmem : (n, p) ∈ ix.allUnlinkedInputs g) :
    n ∈ g.nodes ∧ n.isReroute = false ∧ p ∈ n.inputs ∧ ix.dataOrigin? (n.portRef p) = none := by
  obtain ⟨m, hm, hinputs⟩ := List.mem_flatMap.1 hmem
  obtain ⟨q, hq, hpair⟩ := List.mem_map.1 hinputs
  cases hpair
  obtain ⟨hnode, hreroute⟩ := List.mem_filter.1 hm
  obtain ⟨hinput, horigin⟩ := List.mem_filter.1 hq
  exact ⟨hnode, by simpa using hreroute, hinput, by simpa using horigin⟩

theorem initial?_eq_value {p : Port} {v : Value} (h : p.value = some v) : initial? p = some v := by
  unfold initial?
  rw [h]
  rfl

/-- A cell belongs to a free input of its type and starts from the authored value. -/
theorem freeInput_of_mem (hg : g.WellFormed) (hcell : cell ∈ g.layout.cells) :
    g.FreeInput cell.port cell.dataType ∧ g.authored? cell.port = some cell.initial := by
  rcases mem_addCells hcell with hcell | ⟨n, p, hinput, hport, htype, hinitial, -⟩
  · contradiction
  · obtain ⟨hn, hreroute, hp, horigin⟩ := mem_allUnlinkedInputs hinput
    have hfound : g.port cell.port .input = .ok p := by
      rw [hport]
      exact hg.port_of_mem hn (show p ∈ n.ports .input from hp)
    have hholds := (hg.nodes_wellFormed n hn).inputs_hold p hp
    have hnative : p.dataType ≠ .handle := by
      intro hty
      have hnone : p.value = none := by simpa [hty, DataType.zero] using hholds
      rw [initial?, hnone, hty] at hinitial
      contradiction
    refine ⟨⟨⟨p, hfound, htype.symm⟩, htype ▸ hnative, ?_, ?_⟩, ?_⟩
    · rw [hport]
      exact hg.not_mem_rerouteNames hn hreroute
    · intro source hsource
      rw [← Graph.resolve?_eq_some_iff, hport, ← Index.dataOrigin?_build, horigin] at hsource
      contradiction
    · obtain ⟨v, hv, -⟩ := hg.exists_value hfound hnative
      rw [initial?_eq_value hv] at hinitial
      unfold Graph.authored?
      rw [hfound]
      exact hv.trans hinitial

theorem exists_cell_of_freeInput (hfree : g.FreeInput port ty) :
    ∃ cell, g.layout.cell? port = some cell := by
  obtain ⟨p, hp, htype⟩ := hfree.input
  obtain ⟨n, hn, hport⟩ := Graph.port_eq_ok_iff.1 hp
  obtain ⟨hmem, hname⟩ := Graph.node?_eq_some hn
  obtain ⟨hinput, hid⟩ := Node.port?_eq_some hport
  have href : n.portRef p = port := congrArg₂ PortRef.mk hname hid
  have hreroute : n.isReroute = false := by
    rw [← Bool.not_eq_true]
    intro hyes
    apply hfree.computing
    rw [← hname]
    exact List.mem_map_of_mem (List.mem_filter.2 ⟨hmem, hyes⟩)
  have horigin : (Index.build g).dataOrigin? (n.portRef p) = none := by
    rw [href, Index.dataOrigin?_build, Option.eq_none_iff_forall_ne_some]
    intro source hsource
    exact hfree.unconnected source (Graph.resolve?_eq_some_iff.1 hsource)
  obtain ⟨cell, hcell⟩ := exists_cell hmem hreroute hinput horigin (htype ▸ hfree.native)
  exact ⟨cell, href ▸ hcell⟩

theorem exists_cell_iff_freeInput (hg : g.WellFormed) :
    (∃ cell, g.layout.cell? port = some cell) ↔ ∃ ty, g.FreeInput port ty := by
  constructor
  · rintro ⟨cell, hcell⟩
    obtain ⟨hmem, rfl⟩ := mem_of_cell? hcell
    exact ⟨_, (freeInput_of_mem hg hmem).1⟩
  · rintro ⟨ty, hfree⟩
    exact exists_cell_of_freeInput hfree

/-- A free input has a value of its type wherever the cells hold values. -/
theorem Holds.dataType_eq (hg : g.WellFormed) {bank : Ir.Bank} {contents : PortRef → Value}
    (h : g.layout.Holds bank contents) (hfree : g.FreeInput port ty) :
    (contents port).dataType = ty := by
  obtain ⟨cell, hcell⟩ := exists_cell_of_freeInput hfree
  obtain ⟨hmem, rfl⟩ := mem_of_cell? hcell
  rw [(h cell hmem).2]
  obtain ⟨p, hp, rfl⟩ := hfree.input
  obtain ⟨q, hq, htype⟩ := (freeInput_of_mem hg hmem).1.input
  rw [hp] at hq
  cases hq
  exact htype.symm

/-- New cells hold the authored values. -/
theorem holds_initialBank (hg : g.WellFormed) :
    g.layout.Holds (Backend.initialBank g.layout.cells)
      fun port => (g.authored? port).getD (.bool false) := by
  intro cell hcell
  obtain ⟨hfree, hauthored⟩ := freeInput_of_mem hg hcell
  obtain ⟨v, hv, htype⟩ := hg.authored?_of_freeInput hfree
  rw [hauthored] at hv
  cases hv
  simp only [hauthored, Option.getD_some]
  exact ⟨Backend.lookup_initialBank (nodup_symbols g _) hcell, htype⟩

/-! ## One cell for each input -/

theorem ports_addCells (cells : List StorageCell) (inputs : List (Node × Port)) :
    ((addCells cells inputs).map StorageCell.port).Sublist
      (cells.map StorageCell.port ++ inputs.map fun input => input.1.portRef input.2) := by
  induction inputs generalizing cells with
  | nil =>
      rw [List.map_nil, List.append_nil]
      exact .refl _
  | cons input inputs ih =>
      obtain ⟨n, p⟩ := input
      unfold addCells
      split
      · exact (ih cells).trans (.append (.refl _) (List.sublist_cons_self _ _))
      · refine (ih _).trans ?_
        rw [List.map_append, List.append_assoc]
        exact .refl _

theorem nodup_ports (hg : g.WellFormed) (ix : Index) :
    ((build g ix).cells.map StorageCell.port).Nodup := by
  refine List.Nodup.sublist (ports_addCells [] _) ?_
  unfold Index.allUnlinkedInputs
  rw [List.map_nil, List.nil_append, List.map_flatMap, List.nodup_flatMap]
  refine ⟨?_, ?_⟩
  · intro n hn
    have hinputs := (hg.nodes_wellFormed n (List.mem_filter.1 hn).1).inputs_nodup
    rw [List.map_map]
    refine List.Nodup.of_map PortRef.port ?_
    rw [List.map_map]
    exact hinputs.sublist (List.filter_sublist.map _)
  · have hnames : g.nodes.Pairwise fun m n => m.name ≠ n.name := List.pairwise_map.1 hg.names_nodup
    refine (hnames.sublist List.filter_sublist).imp ?_
    intro m n hne
    simp only [Function.onFun, List.map_map]
    intro port hm hn
    obtain ⟨p, -, rfl⟩ := List.mem_map.1 hm
    obtain ⟨q, -, hport⟩ := List.mem_map.1 hn
    exact hne (congrArg PortRef.node hport).symm

theorem cell?_of_mem (hg : g.WellFormed) {ix : Index} (hcell : cell ∈ (build g ix).cells) :
    (build g ix).cell? cell.port = some cell := by
  have hsome : ((build g ix).cells.find? fun c => c.port == cell.port).isSome := by
    rw [List.find?_isSome]
    exact ⟨cell, hcell, by simp⟩
  obtain ⟨found, hfound⟩ := Option.isSome_iff_exists.1 hsome
  obtain ⟨hmem, hport⟩ := mem_of_cell? hfound
  exact hfound.trans (congrArg some (List.inj_on_of_nodup_map (nodup_ports hg ix) hmem hcell hport))

/-! ## Layouts by another index -/

/-- Of an index only the version and the origins of data decide the layout. -/
theorem build_congr (g : Graph) {ix ix' : Index} (hversion : ix.version = ix'.version)
    (horigin : ∀ input, ix.dataOrigin? input = ix'.dataOrigin? input) :
    build g ix = build g ix' := by
  unfold build Index.allUnlinkedInputs Index.unlinkedInputs
  simp only [hversion, horigin]

theorem build_of_agrees (hgh : g.Agrees h) : build g (Index.build h) = g.layout := by
  apply build_congr
  · exact hgh.version.symm
  · intro input
    rw [Index.dataOrigin?_build, Index.dataOrigin?_build, hgh.resolve?_eq]

end StorageLayout

end Dataflow
