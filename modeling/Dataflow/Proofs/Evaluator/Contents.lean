import Dataflow.Proofs.Evaluator.Snapshots

/-!
# What the cells hold

`Evaluator.Shows` describes the compiled cells by the values of their inputs, bit for bit.
Reading an input gives its value in that description, writing a cell changes the description at
one input, and synchronising replaces it by the authored values. Synchronising with a graph that
the cells were laid out for always succeeds, and so does setting an input once its cell is
written.
-/

namespace Dataflow

open Ir

namespace Evaluator

variable {e e' : Evaluator} {globals : CompiledGlobals} {contents : PortRef → Option Value}
  {g : Graph} {port : PortRef} {cell : StorageCell} {value : Value}

/-- Every cell holds the image of the value that its input has, one of the right type. -/
def Shows (e : Evaluator) (globals : CompiledGlobals) (contents : PortRef → Option Value) :
    Prop :=
  ∀ cell ∈ globals.layout.cells, ∃ v, contents cell.port = some v ∧ v.dataType = cell.dataType ∧
    (e.bank globals.bank).lookup cell.symbol = some v.toBytes

theorem Shows.congr (h : e.Shows globals contents)
    (hbank : e'.bank globals.bank = e.bank globals.bank) : e'.Shows globals contents := by
  intro cell hcell
  rw [hbank]
  exact h cell hcell

/-- Reading gives the value of the input. -/
theorem Shows.readInput (h : e.Shows globals contents) (hcurrent : e.currentGlobals = .ok globals)
    (port : PortRef) (value : Value) :
    e.readInput port = .ok value ↔
      (∃ cell, globals.layout.cell? port = some cell) ∧ contents port = some value := by
  rw [readInput_eq_ok_iff hcurrent]
  constructor
  · rintro ⟨cell, image, hcell, himage, hvalue⟩
    obtain ⟨hmem, rfl⟩ := StorageLayout.mem_of_cell? hcell
    obtain ⟨v, hv, htype, hlookup⟩ := h cell hmem
    rw [hlookup] at himage
    cases himage
    rw [← htype, Value.ofBytes?_toBytes] at hvalue
    exact ⟨⟨cell, hcell⟩, hv.trans hvalue⟩
  · rintro ⟨⟨cell, hcell⟩, hvalue⟩
    obtain ⟨hmem, rfl⟩ := StorageLayout.mem_of_cell? hcell
    obtain ⟨v, hv, htype, hlookup⟩ := h cell hmem
    rw [hv] at hvalue
    cases hvalue
    refine ⟨cell, _, hcell, hlookup, ?_⟩
    rw [← htype]
    exact Value.ofBytes?_toBytes _

/-- Writing a cell changes the value of its input and no other. -/
theorem Shows.putCell (h : e.Shows globals contents) (hfor : globals.LaidOutFor g)
    (hcell : cell ∈ globals.layout.cells) (htype : value.dataType = cell.dataType) :
    (e.putCell globals.bank cell.symbol value).Shows globals
      fun port => if port = cell.port then some value else contents port := by
  intro other hother
  rw [bank_putCell, if_pos rfl]
  by_cases hsame : other.symbol = cell.symbol
  · have hother : other = cell :=
      List.inj_on_of_nodup_map hfor.nodup_symbols hother hcell hsame
    subst hother
    refine ⟨value, if_pos rfl, htype, Bank.lookup_put_self ?_ _⟩
    obtain ⟨v, -, -, hlookup⟩ := h other hcell
    obtain ⟨before, after, hbank, -⟩ := List.lookup_eq_some_iff.1 hlookup
    rw [hbank]
    simp
  · have hport : other.port ≠ cell.port := by
      intro hport
      have hfound := hfor.cell?_of_mem hother
      rw [hport, hfor.cell?_of_mem hcell] at hfound
      exact hsame (congrArg StorageCell.symbol (Option.some.inj hfound)).symm
    simp only [if_neg hport]
    rw [Bank.lookup_put_of_ne _ (Ne.symm hsame)]
    exact h other hother

/-- New cells hold the authored values. -/
theorem Ensured.shows (hensured : e.Ensured globals e') (hnone : e.cache.globals = none)
    (hg : e.graph.WellFormed) (hlayout : e.freshLayout = e.graph.layout) :
    e'.Shows globals e.graph.authored? := by
  obtain ⟨hfresh, hbank, hbanks, -⟩ := hensured.fresh hnone
  rw [hlayout] at hfresh hbanks
  have hinitial : e'.bank globals.bank = Backend.initialBank e.graph.layout.cells := by
    unfold bank
    rw [hbanks, hbank, List.getElem?_concat_length]
    rfl
  intro cell hcell
  rw [hfresh] at hcell
  obtain ⟨hfree, hauthored⟩ := StorageLayout.freeInput_of_mem hg hcell
  obtain ⟨v, hv, htype⟩ := hg.authored?_of_freeInput hfree
  rw [hauthored] at hv
  cases hv
  refine ⟨cell.initial, hauthored, htype, ?_⟩
  rw [hinitial]
  exact Backend.lookup_initialBank (StorageLayout.nodup_symbols _ _) hcell

/-! ## Synchronising -/

/-- The graph takes part in the layout, so it has a value of the right type for each cell. -/
theorem writeCell_of_authored (hg : g.WellFormed) (hfor : globals.LaidOutFor g)
    (hcell : cell ∈ globals.layout.cells) (e : Evaluator) :
    ∃ p v, g.port cell.port .input = .ok p ∧ p.value = some v ∧ g.authored? cell.port = some v ∧
      v.dataType = cell.dataType ∧
      e.writeCell globals cell.port v = .ok (e.putCell globals.bank cell.symbol v) := by
  have hfree := hfor.freeInput hcell
  obtain ⟨p, hp, hptype⟩ := hfree.input
  obtain ⟨v, hv, htype⟩ := hg.exists_value hp (hptype ▸ hfree.native)
  rw [hptype] at htype
  refine ⟨p, v, hp, hv, ?_, htype, ?_⟩
  · unfold Graph.authored?
    rw [hp]
    exact hv
  · unfold writeCell
    simp only [hfor.cell?_of_mem hcell, if_pos htype]

/-- Synchronising goes through all cells and leaves the authored values in them. -/
theorem syncCells_of_laidOutFor (hg : g.WellFormed) (hfor : globals.LaidOutFor g)
    {cells : List StorageCell} (hcells : ∀ cell ∈ cells, cell ∈ globals.layout.cells)
    (written : Nat) (e : Evaluator) :
    ∃ banks, syncCells globals g written cells e =
        (.ok (written + cells.length), { e with banks }) ∧
      ∀ contents, e.Shows globals contents → Shows { e with banks } globals fun port =>
        if port ∈ cells.map StorageCell.port then g.authored? port else contents port := by
  induction cells generalizing e written with
  | nil => exact ⟨e.banks, rfl, fun contents h => by simpa using h⟩
  | cons cell cells ih =>
      have hcell := hcells cell List.mem_cons_self
      obtain ⟨p, v, hp, hv, hauthored, htype, hwrite⟩ := writeCell_of_authored hg hfor hcell e
      obtain ⟨banks, hsync, hshows⟩ := ih (fun c hc => hcells c (List.mem_cons_of_mem _ hc))
        (written + 1) (e.putCell globals.bank cell.symbol v)
      refine ⟨banks, ?_, ?_⟩
      · have hcount : written + 1 + cells.length = written + (cell :: cells).length := by
          rw [List.length_cons]
          omega
        rw [hcount] at hsync
        unfold syncCells
        simp only [hp, hv, hwrite]
        exact hsync
      · intro contents h
        have hrest := hshows _ (h.putCell hfor hcell htype)
        -- the value that has just been written is the authored one
        have hcontents : (fun port => if port ∈ (cell :: cells).map StorageCell.port then
            g.authored? port else contents port) = fun port =>
              if port ∈ cells.map StorageCell.port then g.authored? port
              else if port = cell.port then some v else contents port := by
          funext port
          by_cases hport : port = cell.port
          · simp [hport, hauthored]
          · simp [hport]
        rw [hcontents]
        exact hrest

theorem syncFrom_of_laidOutFor (hg : g.WellFormed) (hfor : globals.LaidOutFor g)
    (e : Evaluator) :
    ∃ banks, e.syncFrom globals g = (.ok globals.layout.cells.length, { e with banks }) ∧
      ∀ contents, e.Shows globals contents →
        Shows { e with banks } globals g.authored? := by
  obtain ⟨banks, hsync, hshows⟩ := syncCells_of_laidOutFor hg hfor (fun _ hcell => hcell) 0 e
  have hversion : g.version = globals.version := by
    obtain ⟨h, hagrees, hlayout⟩ := hfor
    rw [CompiledGlobals.version, hlayout, ← hagrees.version]
    rfl
  refine ⟨banks, ?_, ?_⟩
  · unfold syncFrom
    rw [if_pos hversion, hsync, Nat.zero_add]
  · intro contents h cell hcell
    obtain ⟨v, hv, hrest⟩ := hshows contents h cell hcell
    have hmem : cell.port ∈ globals.layout.cells.map StorageCell.port :=
      List.mem_map_of_mem hcell
    simp only [if_pos hmem] at hv
    exact ⟨v, hv, hrest⟩

/-! ## Setting an input -/

/-- The graph takes every value that the cell has taken. -/
theorem exists_setInputValue (hfor : globals.LaidOutFor g)
    (hcell : globals.layout.cell? port = some cell) (htype : value.dataType = cell.dataType) :
    ∃ g', g.setInputValue port value = .ok g' := by
  obtain ⟨hmem, rfl⟩ := StorageLayout.mem_of_cell? hcell
  obtain ⟨p, hp, hptype⟩ := (hfor.freeInput hmem).input
  exact Graph.setInputValue_eq_ok_iff.2 ⟨p, hp, htype.trans hptype.symm⟩

/-- A value is refused, or it becomes the one of the cell and of the graph. -/
theorem setInput_cases (he : e.Coherent) {graphs : List Graph} (hstep : InStep graphs e)
    (port : PortRef) (value : Value) :
    (∃ err, e.setInput port value = (.error err, e)) ∨
      ∃ globals cell g, e.currentGlobals = .ok globals ∧
        globals.layout.cell? port = some cell ∧ value.dataType = cell.dataType ∧
        e.graph.setInputValue port value = .ok g ∧
        e.setInput port value =
          (.ok (), { e.putCell globals.bank cell.symbol value with graph := g }) := by
  rcases writeInput_cases e port value with ⟨err, hwrite⟩ | ⟨globals, cell, hglobals, hcell,
    htype, hwrite⟩
  · exact .inl ⟨err, setInput_of_refused hwrite⟩
  · have hfor := hstep.layout globals (globals_of_currentGlobals he hglobals)
    obtain ⟨g, hset⟩ := exists_setInputValue hfor hcell htype
    exact .inr ⟨globals, cell, g, hglobals, hcell, htype, hset, setInput_of_written hwrite hset⟩

/-! ## Other inputs -/

theorem Keeps.currentGlobals (hkeeps : e.Keeps e') (he : e.Coherent) :
    e'.currentGlobals = e.currentGlobals := by
  have he' := hkeeps.coherent he
  unfold Evaluator.currentGlobals
  rw [globals?_version he', globals?_version he, hkeeps.globals, hkeeps.version he.remembered]

theorem readInput_congr (hcurrent : e'.currentGlobals = e.currentGlobals)
    (hlookup : ∀ globals cell, e.currentGlobals = .ok globals →
      globals.layout.cell? port = some cell →
      (e'.bank globals.bank).lookup cell.symbol = (e.bank globals.bank).lookup cell.symbol) :
    e'.readInput port = e.readInput port := by
  unfold Evaluator.readInput
  rw [hcurrent]
  cases hglobals : e.currentGlobals with
  | error err => rfl
  | ok globals =>
      simp only [bind, Except.bind]
      cases hcell : globals.layout.cell? port with
      | none => rfl
      | some cell => simp only [hlookup globals cell hglobals hcell]

/-- A cell that was written is not the one of another input. -/
theorem readInput_of_written (hfor : globals.LaidOutFor g)
    (hglobals : e.currentGlobals = .ok globals) {other : PortRef}
    (hcell : globals.layout.cell? other = some cell) (hne : port ≠ other)
    (hcurrent : e'.currentGlobals = e.currentGlobals)
    (hbanks : e'.banks = (e.putCell globals.bank cell.symbol value).banks) :
    e'.readInput port = e.readInput port := by
  apply readInput_congr hcurrent
  intro globals' cell' hglobals' hcell'
  rw [hglobals] at hglobals'
  cases hglobals'
  obtain ⟨hmem, hport⟩ := StorageLayout.mem_of_cell? hcell
  obtain ⟨hmem', hport'⟩ := StorageLayout.mem_of_cell? hcell'
  have hsymbol : cell.symbol ≠ cell'.symbol := by
    intro hsymbol
    have hsame := List.inj_on_of_nodup_map hfor.nodup_symbols hmem hmem' hsymbol
    exact hne (by rw [← hport', ← hport, hsame])
  have hbank : e'.bank globals.bank =
      (e.putCell globals.bank cell.symbol value).bank globals.bank := by
    unfold bank
    rw [hbanks]
  rw [hbank, bank_putCell, if_pos rfl, Bank.lookup_put_of_ne _ hsymbol]

/-- Writing one input leaves what is read at the others. -/
theorem readInput_writeInput_of_ne (he : e.Coherent) {graphs : List Graph}
    (hstep : InStep graphs e) {other : PortRef} (hne : port ≠ other) (value : Value) :
    (e.writeInput other value).2.readInput port = e.readInput port := by
  have hcurrent := (keeps_writeInput e other value).currentGlobals he
  rcases writeInput_cases e other value with ⟨err, hwrite⟩ | ⟨globals, cell, hglobals, hcell, -,
    hwrite⟩
  · rw [hwrite]
  · rw [hwrite] at hcurrent ⊢
    exact readInput_of_written (hstep.layout globals (globals_of_currentGlobals he hglobals))
      hglobals hcell hne hcurrent rfl

theorem readInput_setInput_of_ne (he : e.Coherent) {graphs : List Graph}
    (hstep : InStep graphs e) {other : PortRef} (hne : port ≠ other) (value : Value) :
    (e.setInput other value).2.readInput port = e.readInput port := by
  have hcurrent := (keeps_setInput e other value).currentGlobals he
  rcases setInput_cases he hstep other value with ⟨err, hset⟩ | ⟨globals, cell, g, hglobals,
    hcell, -, -, hset⟩
  · rw [hset]
  · rw [hset] at hcurrent ⊢
    exact readInput_of_written (hstep.layout globals (globals_of_currentGlobals he hglobals))
      hglobals hcell hne hcurrent rfl

end Evaluator

end Dataflow
