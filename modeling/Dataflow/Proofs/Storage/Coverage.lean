import Dataflow.Proofs.Storage.FreeInputs

/-!
# Cells for exactly the unconnected inputs

The cells of a layout stand for the inputs of computing nodes that no data reaches, in the order
of the nodes and of their ports: `StorageLayout.layout_covers`. Their symbols can be told apart
whatever the nodes and ports are called, so a new backend takes all of them, and each cell has
contents of its own.
-/

namespace Dataflow

/-! ## Symbols -/

namespace Symbol

/-- The name can stand in a symbol table. -/
def Clean (name : String) : Prop := '"' ∉ name.toList ∧ '\x00' ∉ name.toList

instance : DecidablePred Clean := fun _ => inferInstanceAs (Decidable (_ ∧ _))

theorem clean_append {s t : String} (hs : Clean s) (ht : Clean t) : Clean (s ++ t) := by
  unfold Clean
  rw [String.toList_append]
  simp only [List.mem_append, not_or]
  exact ⟨⟨hs.1, ht.1⟩, hs.2, ht.2⟩

theorem clean_sanitize (name : String) : Clean (sanitize name) := by
  unfold Clean sanitize
  rw [String.toList_ofList]
  simp

theorem clean_ofInput (node port : String) : Clean (ofInput node port) :=
  clean_append (clean_append (clean_sanitize node) (by decide)) (clean_sanitize port)

theorem clean_numbered {base : String} (h : Clean base) (n : Nat) : Clean (numbered base n) := by
  rw [numbered_eq]
  refine clean_append (clean_append h (by decide)) ?_
  have hdigits : ∀ c ∈ (toString n).toList, c.isDigit = true := by
    rw [Nat.toString_eq_repr, Nat.toList_repr]
    exact fun c hc => Nat.isDigit_of_mem_toDigits (by decide) (by decide) hc
  exact ⟨fun hc => absurd (hdigits _ hc) (by decide), fun hc => absurd (hdigits _ hc) (by decide)⟩

/-- A free name stays as it is. A name that is taken gets the first number from 2 on with which it
is free: the search for one always ends. -/
theorem unique_cases (base : String) (taken : List String) :
    (base ∉ taken ∧ unique base taken = base) ∨
    (base ∈ taken ∧ ∃ n, 2 ≤ n ∧ unique base taken = numbered base n ∧
      numbered base n ∉ taken ∧ ∀ m, 2 ≤ m → m < n → numbered base m ∈ taken) := by
  by_cases hbase : base ∈ taken
  · refine .inr ⟨hbase, ?_⟩
    obtain ⟨s, hs, hfree⟩ := exists_candidate base taken
    obtain ⟨k, hk, rfl⟩ := List.mem_map.1 hs
    have hfound : ((List.range' 2 (taken.length + 1)).find?
        ((fun s => !taken.contains s) ∘ numbered base)).isSome := by
      rw [List.find?_isSome]
      exact ⟨k, hk, by simpa using hfree⟩
    obtain ⟨n, hn⟩ := Option.isSome_iff_exists.1 hfound
    have hunique : unique base taken = numbered base n := by
      unfold unique
      rw [if_pos (List.contains_iff_mem.2 hbase), List.find?_map, hn]
      rfl
    obtain ⟨hnew, hrange, hbelow⟩ := List.find?_range'_eq_some.1 hn
    refine ⟨n, (List.mem_range'_1.1 hrange).1, hunique, by simpa using hnew, fun m hm hmn => ?_⟩
    simpa using hbelow m hm hmn
  · refine .inl ⟨hbase, ?_⟩
    unfold unique
    rw [if_neg (by simpa using hbase)]

theorem clean_unique {base : String} (h : Clean base) (taken : List String) :
    Clean (unique base taken) := by
  rcases unique_cases base taken with ⟨-, heq⟩ | ⟨-, n, -, heq, -⟩
  · rw [heq]
    exact h
  · rw [heq]
    exact clean_numbered h n

end Symbol

/-! ## Free inputs -/

namespace Graph

/-- The inputs of all nodes, in the order of the nodes and of their ports. -/
def inputs (g : Graph) : List (Node × Port) :=
  g.nodes.flatMap fun n => n.inputs.map fun p => (n, p)

/-- The input needs a cell: it can hold a value, its node computes, and no data reaches it. -/
def needsCell (g : Graph) (input : Node × Port) : Bool :=
  !input.1.isReroute && ((Index.build g).dataOrigin? (input.1.portRef input.2)).isNone &&
    input.2.dataType != .handle

end Graph

/-- The cell has the address and the type of the input and starts from its authored value. -/
structure StorageCell.StandsFor (input : Node × Port) (cell : StorageCell) : Prop where
  port : cell.port = input.1.portRef input.2
  dataType : cell.dataType = input.2.dataType
  initial : input.2.value = some cell.initial

namespace StorageLayout

/-- The layout has cells for what needs cells and for nothing else. -/
structure Covers (layout : StorageLayout) (g : Graph) : Prop where
  /-- One cell for each input that needs it, in the order of the inputs. -/
  cells : List.Forall₂ StorageCell.StandsFor (g.inputs.filter g.needsCell) layout.cells
  /-- By its port a cell is found and nothing else. -/
  found : ∀ port cell, layout.cell? port = some cell ↔ cell ∈ layout.cells ∧ cell.port = port
  /-- An input of a computing node has an origin, or else a cell, or else an opaque type. -/
  supplied : ∀ n ∈ g.nodes, n.isReroute = false → ∀ p ∈ n.inputs,
    let origin := (Index.build g).dataOrigin? (n.portRef p)
    let cell := layout.cell? (n.portRef p)
    (origin.isSome ∧ cell = none) ∨ (origin = none ∧ cell.isSome ∧ p.dataType ≠ .handle) ∨
      (origin = none ∧ cell = none ∧ p.dataType = .handle)
  symbols_nodup : (layout.cells.map StorageCell.symbol).Nodup
  symbols_clean : ∀ cell ∈ layout.cells, Symbol.Clean cell.symbol

variable {g : Graph}

theorem filter_inputs (g : Graph) : g.inputs.filter g.needsCell =
    ((Index.build g).allUnlinkedInputs g).filter fun input => input.2.dataType != .handle := by
  unfold Graph.inputs Index.allUnlinkedInputs Index.unlinkedInputs
  induction g.nodes with
  | nil => rfl
  | cons n nodes ih =>
      rw [List.flatMap_cons, List.filter_append, ih]
      cases hreroute : n.isReroute with
      | true =>
          rw [List.filter_cons_of_neg (by simp [hreroute])]
          simp [Graph.needsCell, hreroute]
      | false =>
          rw [List.filter_cons_of_pos (by simp [hreroute]), List.flatMap_cons, List.filter_append,
            List.filter_map, List.filter_map, List.filter_filter]
          congr 3
          funext p
          simp [Graph.needsCell, hreroute, Bool.and_comm]

/-- Of the inputs of a well-formed node all but the opaque ones hold a value. -/
theorem value_cases {p : Port}
    (h : p.value.map Value.dataType = p.dataType.zero.map fun _ => p.dataType) :
    (p.dataType = .handle ∧ p.value = none) ∨ (p.dataType ≠ .handle ∧ ∃ v, p.value = some v) := by
  cases htype : p.dataType with
  | handle => exact .inl ⟨rfl, by simpa [htype, DataType.zero] using h⟩
  | _ =>
      rw [htype] at h
      obtain ⟨v, hv, -⟩ := Option.map_eq_some_iff.1 h
      exact .inr ⟨by decide, v, hv⟩

/-- New cells come behind the old ones, one for each input that is not opaque. -/
theorem exists_addCells_eq (cells : List StorageCell) {inputs : List (Node × Port)}
    (hholds : ∀ input ∈ inputs, input.2.value.map Value.dataType =
      input.2.dataType.zero.map fun _ => input.2.dataType) :
    ∃ added, addCells cells inputs = cells ++ added ∧
      List.Forall₂ StorageCell.StandsFor
        (inputs.filter fun input => input.2.dataType != .handle) added := by
  induction inputs generalizing cells with
  | nil => exact ⟨[], (List.append_nil cells).symm, .nil⟩
  | cons input inputs ih =>
      obtain ⟨n, p⟩ := input
      rw [List.forall_mem_cons] at hholds
      unfold addCells
      rcases value_cases hholds.1 with ⟨htype, hvalue⟩ | ⟨htype, v, hvalue⟩
      · have hnone : initial? p = none := by
          rw [initial?, hvalue, htype]
          rfl
        rw [hnone, List.filter_cons_of_neg (by simpa using htype)]
        exact ih cells hholds.2
      · rw [initial?_eq_value hvalue, List.filter_cons_of_pos (by simpa using htype)]
        dsimp only
        obtain ⟨added, heq, hadded⟩ := ih (cells ++ [_]) hholds.2
        exact ⟨_ :: added, by rw [heq, List.append_assoc]; rfl, .cons ⟨rfl, rfl, hvalue⟩ hadded⟩

theorem covers_cells (hg : g.WellFormed) :
    List.Forall₂ StorageCell.StandsFor (g.inputs.filter g.needsCell) g.layout.cells := by
  have hholds : ∀ input ∈ (Index.build g).allUnlinkedInputs g,
      input.2.value.map Value.dataType = input.2.dataType.zero.map fun _ => input.2.dataType := by
    rintro ⟨n, p⟩ hmem
    obtain ⟨hn, -, hp, -⟩ := mem_allUnlinkedInputs hmem
    exact (hg.nodes_wellFormed n hn).inputs_hold p hp
  obtain ⟨added, heq, hadded⟩ := exists_addCells_eq [] hholds
  rw [filter_inputs]
  change List.Forall₂ _ _ (addCells [] _)
  rw [heq]
  exact hadded

theorem cell?_eq_some_iff (hg : g.WellFormed) {port : PortRef} {cell : StorageCell} :
    g.layout.cell? port = some cell ↔ cell ∈ g.layout.cells ∧ cell.port = port := by
  constructor
  · exact mem_of_cell?
  · rintro ⟨hmem, rfl⟩
    exact cell?_of_mem hg hmem

theorem clean_symbol {cell : StorageCell} (h : cell ∈ g.layout.cells) :
    Symbol.Clean cell.symbol := by
  rcases mem_addCells h with hcell | ⟨n, p, -, -, -, -, taken, hsymbol⟩
  · contradiction
  · rw [hsymbol]
    exact Symbol.clean_unique (Symbol.clean_ofInput _ _) taken

theorem covers_layout (hg : g.WellFormed) : g.layout.Covers g := by
  refine ⟨covers_cells hg, fun _ _ => cell?_eq_some_iff hg, ?_, nodup_symbols g _,
    fun _ => clean_symbol⟩
  intro n hn hreroute p hp
  have hport := hg.port_of_mem hn (show p ∈ n.ports .input from hp)
  -- a cell belongs to a free input
  have hcell : ∀ cell, g.layout.cell? (n.portRef p) = some cell →
      (Index.build g).dataOrigin? (n.portRef p) = none ∧ p.dataType ≠ .handle := by
    intro cell hcell
    obtain ⟨ty, hfree⟩ := (exists_cell_iff_freeInput hg).1 ⟨cell, hcell⟩
    obtain ⟨q, hq, htype⟩ := hfree.input
    rw [hport] at hq
    cases hq
    refine ⟨?_, htype ▸ hfree.native⟩
    rw [Index.dataOrigin?_build, Option.eq_none_iff_forall_ne_some]
    exact fun source hsource => hfree.unconnected source (Graph.resolve?_eq_some_iff.1 hsource)
  dsimp only
  cases horigin : (Index.build g).dataOrigin? (n.portRef p) with
  | some source =>
      refine .inl ⟨rfl, Option.eq_none_iff_forall_ne_some.2 fun cell h => ?_⟩
      rw [horigin] at hcell
      exact absurd (hcell cell h).1 (by simp)
  | none =>
      by_cases htype : p.dataType = .handle
      · refine .inr (.inr ⟨rfl, Option.eq_none_iff_forall_ne_some.2 fun cell h => ?_, htype⟩)
        exact (hcell cell h).2 htype
      · obtain ⟨cell, h⟩ := exists_cell hn hreroute hp horigin htype
        exact .inr (.inl ⟨rfl, Option.isSome_iff_exists.2 ⟨cell, h⟩, htype⟩)

/-! ## Compiled cells -/

/-- What is written to one cell of a new bank does not reach the others. -/
theorem lookup_put_of_mem (g : Graph) {cell other : StorageCell} (hcell : cell ∈ g.layout.cells)
    (hother : other ∈ g.layout.cells) (hne : other ≠ cell) (image : Bytes) :
    ((Backend.initialBank g.layout.cells).put cell.symbol image).lookup other.symbol =
      some other.initial.toBytes := by
  have hnodup := nodup_symbols g (Index.build g)
  have hsymbol : cell.symbol ≠ other.symbol := by
    intro heq
    exact hne (List.inj_on_of_nodup_map hnodup hother hcell heq.symm)
  rw [Ir.Bank.lookup_put_of_ne _ hsymbol]
  exact Backend.lookup_initialBank hnodup hother

/-- The cells of a graph stand for exactly the inputs that need them, under symbols that can be
told apart however the nodes and ports are called, and every new backend takes all of them: each
cell has contents of its own, which writing to another cell leaves alone. -/
theorem layout_covers (hg : g.Reachable) : g.layout.Covers g ∧
    (∀ base taken, Symbol.unique base taken ∉ taken ∧
      (Symbol.unique base taken = base ∨ ∃ n, 2 ≤ n ∧
        Symbol.unique base taken = Symbol.numbered base n ∧
        ∀ m, 2 ≤ m → m < n → Symbol.numbered base m ∈ taken)) ∧
    ∀ options, ∃ bank b, (Backend.new options).compileGlobals g.layout = (.ok bank, b) ∧
      bank = g.layout.cells.map (fun cell => (cell.symbol, cell.initial.toBytes)) ∧
      b.table.cellNames = g.layout.cells.map StorageCell.symbol ∧
      ∀ cell ∈ g.layout.cells, ∀ image,
        (bank.put cell.symbol image).lookup cell.symbol = some image ∧
        ∀ other ∈ g.layout.cells, other ≠ cell →
          (bank.put cell.symbol image).lookup other.symbol = some other.initial.toBytes := by
  refine ⟨covers_layout hg.wellFormed, fun base taken => ⟨Symbol.unique_not_mem base taken, ?_⟩,
    fun options => ?_⟩
  · rcases Symbol.unique_cases base taken with ⟨-, heq⟩ | ⟨-, n, hn, heq, -, hbelow⟩
    · exact .inl heq
    · exact .inr ⟨n, hn, heq, hbelow⟩
  · obtain ⟨⟨bank, hcompile⟩, -, hnames⟩ := Backend.start_table options g
    obtain rfl := Backend.bank_of_compileGlobals hcompile
    refine ⟨_, _, hcompile, rfl, hnames, fun cell hcell image => ⟨?_, fun other hother hne => ?_⟩⟩
    · refine Ir.Bank.lookup_put_self ?_ image
      unfold Backend.initialBank
      rw [List.map_map]
      exact List.mem_map_of_mem hcell
    · exact lookup_put_of_mem g hcell hother hne image

end StorageLayout

/-! ## Names that meet

A port is called as if it had been numbered, and a node like another one but for quotation marks.
-/

namespace NumberedPort

def plain : Node where
  name := "N"
  kind := .host ⟨"mix", [⟨"a", .i32⟩, ⟨"a #2", .i32⟩, ⟨"h", .handle⟩], [⟨"out", .i32⟩], false, none,
    .forward⟩
  inputs := [⟨"a", .i32, some (.i32 0)⟩, ⟨"a #2", .i32, some (.i32 0)⟩, ⟨"h", .handle, none⟩]
  outputs := [⟨"out", .i32, none⟩]

def quoted : Node :=
  ⟨"\"N\"", .math .add .i32, [⟨"a", .i32, some (.i32 0)⟩, ⟨"b", .i32, some (.i32 0)⟩],
    [⟨"result", .i32, none⟩]⟩

def graph : Graph :=
  ⟨"numbered port", [plain, quoted], [⟨⟨"\"N\"", "b"⟩, ⟨"N", "out"⟩⟩], none⟩

theorem reachable : graph.Reachable := by
  have h₁ : Graph.Reachable ⟨"numbered port", [plain], [], none⟩ :=
    .addNode (.empty _) (show (Graph.empty "numbered port").addNode "N" plain.kind =
      .ok (plain, _) from rfl)
  have h₂ := Graph.Reachable.addNode h₁
    (show Graph.addNode _ "\"N\"" quoted.kind = .ok (quoted, _) from rfl)
  exact .link h₂ (show Graph.link _ ⟨"N", "out"⟩ ⟨"\"N\"", "b"⟩ = .ok (none, _) from rfl)

theorem layout_covers_numberedPort : graph.Reachable ∧
    graph.layout.cells.map StorageCell.symbol = ["N - a", "N - a #2", "N - a #3"] ∧
    graph.layout.cell? ⟨"\"N\"", "a"⟩ = some ⟨⟨"\"N\"", "a"⟩, "N - a #3", .i32, .i32 0⟩ ∧
    graph.layout.cell? ⟨"\"N\"", "b"⟩ = none ∧ graph.layout.cell? ⟨"N", "h"⟩ = none ∧
    ∃ bank b, (Backend.new {}).compileGlobals graph.layout = (.ok bank, b) := by
  obtain ⟨hcovers, -, hcompiles⟩ := StorageLayout.layout_covers reachable
  obtain ⟨bank, b, hcompile, -⟩ := hcompiles {}
  refine ⟨reachable, by decide +kernel, (hcovers.found _ _).2 ⟨by decide +kernel, rfl⟩, ?_, ?_,
    bank, b, hcompile⟩
  · rcases hcovers.supplied quoted (by decide) rfl ⟨"b", .i32, some (.i32 0)⟩ (by decide) with
      ⟨-, hcell⟩ | ⟨horigin, -⟩ | ⟨-, hcell, -⟩
    · exact hcell
    · exact absurd horigin (by decide +kernel)
    · exact hcell
  · rcases hcovers.supplied plain (by decide) rfl ⟨"h", .handle, none⟩ (by decide) with
      ⟨-, hcell⟩ | ⟨-, -, htype⟩ | ⟨-, hcell, -⟩
    · exact hcell
    · contradiction
    · exact hcell

end NumberedPort

end Dataflow
