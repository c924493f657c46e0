import Dataflow.Ir.Memory
import Dataflow.Proofs.Graph.WellFormed
import Dataflow.Storage.Layout

/-!
# Cells of unconnected inputs

Each cell of a layout belongs to an unconnected input of a computing node and has the
input's type, and each such input of a native type has a cell. Writing a cell of a bank leaves the
set of its cells as it is.
-/

namespace Dataflow

/-- The layout of the graph's own cells. -/
def Graph.layout (g : Graph) : StorageLayout := StorageLayout.build g (Index.build g)

namespace Ir.Bank

theorem keys_put (bank : Bank) (symbol : String) (image : Bytes) :
    (bank.put symbol image).map Prod.fst = bank.map Prod.fst := by
  unfold put
  rw [List.map_map]
  apply List.map_congr_left
  intro cell _
  by_cases hsymbol : cell.1 = symbol <;> simp [hsymbol]

theorem lookup_put_self {bank : Bank} {symbol : String} (h : symbol ∈ bank.map Prod.fst)
    (image : Bytes) : (bank.put symbol image).lookup symbol = some image := by
  unfold put
  induction bank with
  | nil => contradiction
  | cons cell bank ih =>
      rw [List.map_cons]
      by_cases hsymbol : cell.1 = symbol
      · rw [if_pos hsymbol, List.lookup_cons_self]
      · have hne : (symbol == cell.1) = false := by simpa using fun h => hsymbol h.symm
        rw [if_neg hsymbol, List.lookup_cons, hne]
        rcases List.mem_cons.1 h with h | h
        · exact absurd h.symm hsymbol
        · exact ih h

theorem lookup_put_of_ne (bank : Bank) {symbol symbol' : String} (h : symbol ≠ symbol')
    (image : Bytes) : (bank.put symbol image).lookup symbol' = bank.lookup symbol' := by
  unfold put
  induction bank with
  | nil => rfl
  | cons cell bank ih =>
      rw [List.map_cons]
      by_cases hsymbol : cell.1 = symbol
      · have hne : (symbol' == cell.1) = false := by simpa [hsymbol] using h.symm
        rw [if_pos hsymbol, List.lookup_cons, List.lookup_cons, ih, hne,
          show (symbol' == symbol) = false by simpa using h.symm]
      · rw [if_neg hsymbol, List.lookup_cons, List.lookup_cons, ih]

end Ir.Bank

namespace StorageLayout

/-- The bank holds values of the right types for all cells. -/
def Holds (layout : StorageLayout) (bank : Ir.Bank) (contents : PortRef → Value) : Prop :=
  ∀ cell ∈ layout.cells, bank.lookup cell.symbol = some (contents cell.port).toBytes ∧
    (contents cell.port).dataType = cell.dataType

theorem mem_addCells {cells : List StorageCell} {inputs : List (Node × Port)}
    {cell : StorageCell} (h : cell ∈ addCells cells inputs) :
    cell ∈ cells ∨ ∃ n p, (n, p) ∈ inputs ∧ cell.port = n.portRef p ∧
      cell.dataType = p.dataType ∧ initial? p = some cell.initial ∧
        ∃ taken, cell.symbol = Symbol.unique (Symbol.ofInput n.name p.identifier) taken := by
  induction inputs generalizing cells with
  | nil => exact Or.inl h
  | cons input inputs ih =>
      obtain ⟨n, p⟩ := input
      have hwiden : ∀ {P : Node → Port → Prop}, (∃ n p, (n, p) ∈ inputs ∧ P n p) →
          ∃ m q, (m, q) ∈ (n, p) :: inputs ∧ P m q := by
        rintro P ⟨m, q, hmem, hP⟩
        exact ⟨m, q, List.mem_cons_of_mem _ hmem, hP⟩
      unfold addCells at h
      split at h
      · exact (ih h).imp_right hwiden
      · rename_i initial hinitial
        rcases ih h with hcell | hrest
        · rcases List.mem_append.1 hcell with hcell | hcell
          · exact Or.inl hcell
          · rw [List.mem_singleton] at hcell
            subst hcell
            exact Or.inr ⟨n, p, List.mem_cons_self, rfl, rfl, hinitial, _, rfl⟩
        · exact Or.inr (hwiden hrest)

theorem mem_of_cell? {layout : StorageLayout} {port : PortRef} {cell : StorageCell}
    (h : layout.cell? port = some cell) : cell ∈ layout.cells ∧ cell.port = port := by
  unfold cell? at h
  exact ⟨List.mem_of_find?_eq_some h, by simpa using List.find?_some h⟩

theorem dataType_of_cell?_build {g : Graph} (hg : g.WellFormed) {ix : Index} {n : Node}
    (hn : n ∈ g.nodes) {p : Port} (hp : p ∈ n.inputs) {cell : StorageCell}
    (h : (build g ix).cell? (n.portRef p) = some cell) : cell.dataType = p.dataType := by
  obtain ⟨hmem, hport⟩ := mem_of_cell? h
  rcases mem_addCells hmem with hcell | ⟨m, q, hinput, hport', htype, -⟩
  · contradiction
  · obtain ⟨k, hk, hinputs⟩ := List.mem_flatMap.1 hinput
    obtain ⟨q', hq', hpair⟩ := List.mem_map.1 hinputs
    cases hpair
    have hq : q ∈ m.ports .input := (List.mem_filter.1 hq').1
    have hm : m ∈ g.nodes := (List.mem_filter.1 hk).1
    have hsame : g.port (n.portRef p) .input = .ok q := by
      rw [← hport, hport']
      exact hg.port_of_mem hm hq
    have hp' : p ∈ n.ports .input := hp
    rw [hg.port_of_mem hn hp'] at hsame
    cases hsame
    exact htype

theorem subset_addCells (cells : List StorageCell) (inputs : List (Node × Port)) :
    ∀ cell ∈ cells, cell ∈ addCells cells inputs := by
  induction inputs generalizing cells with
  | nil => exact fun _ h => h
  | cons input inputs ih =>
      intro cell hcell
      unfold addCells
      split
      · exact ih cells cell hcell
      · exact ih _ cell (List.mem_append_left _ hcell)

theorem exists_mem_addCells (cells : List StorageCell) {inputs : List (Node × Port)} {n : Node}
    {p : Port} (hmem : (n, p) ∈ inputs) (hinitial : (initial? p).isSome) :
    ∃ cell ∈ addCells cells inputs, cell.port = n.portRef p := by
  induction inputs generalizing cells with
  | nil => contradiction
  | cons input inputs ih =>
      unfold addCells
      rcases List.mem_cons.1 hmem with rfl | hmem
      · obtain ⟨initial, hinitial⟩ := Option.isSome_iff_exists.1 hinitial
        simp only [hinitial]
        exact ⟨_, subset_addCells _ _ _ (List.mem_append_right _ List.mem_cons_self), rfl⟩
      · split
        · exact ih cells hmem
        · exact ih _ hmem

theorem initial?_isSome {p : Port} (h : p.dataType ≠ .handle) : (initial? p).isSome := by
  unfold initial?
  cases hty : p.dataType with
  | handle => contradiction
  | _ => cases p.value <;> rfl

theorem exists_cell {g : Graph} {ix : Index} {n : Node} (hn : n ∈ g.nodes)
    (hreroute : n.isReroute = false) {p : Port} (hp : p ∈ n.inputs)
    (horigin : ix.dataOrigin? (n.portRef p) = none) (hnative : p.dataType ≠ .handle) :
    ∃ cell, (build g ix).cell? (n.portRef p) = some cell := by
  have hmem : (n, p) ∈ ix.allUnlinkedInputs g := by
    refine List.mem_flatMap.2 ⟨n, List.mem_filter.2 ⟨hn, by simp [hreroute]⟩, ?_⟩
    exact List.mem_map_of_mem (List.mem_filter.2 ⟨hp, by simp [horigin]⟩)
  obtain ⟨cell, hcell, hport⟩ := exists_mem_addCells [] hmem (initial?_isSome hnative)
  rw [← Option.isSome_iff_exists, cell?, List.find?_isSome]
  exact ⟨cell, hcell, by simp [hport]⟩

/-- The cells depend on the computing nodes and on where their data comes from. -/
theorem cells_build_congr {g h : Graph} {ix ix' : Index}
    (hnodes : (h.nodes.filter fun n => !n.isReroute) = g.nodes.filter fun n => !n.isReroute)
    (horigins : ∀ target, ix'.dataOrigin? target = ix.dataOrigin? target) :
    (build h ix').cells = (build g ix).cells := by
  have hinputs : ix'.allUnlinkedInputs h = ix.allUnlinkedInputs g := by
    unfold Index.allUnlinkedInputs Index.unlinkedInputs
    simp only [hnodes, horigins]
  change addCells [] _ = addCells [] _
  rw [hinputs]

end StorageLayout

end Dataflow
