import Dataflow.Proofs.Evaluator.Snapshots
import Dataflow.Proofs.Unit.StockFunctions
import Dataflow.Proofs.Unit.TruthBytes

/-!
# Stock kinds in use

`Evaluator.CellChange` lists what an operation can do to compiled cells: leave them, put a value
into one of them, or compile new ones to a bank of their own. So in every bank, also in those that
later compilations have put out of use, each cell keeps holding values of its type, and a truth
value is held as the byte 0 or 1. With `Node.FollowsKind` for the nodes and
`CompiledUnit.RunsOnTruths` for the runs, `stock_kinds_compute` says what graphs of stock kinds
make of integers and truth values.
-/

namespace Dataflow

open Ir

/-- The bank has all cells of the layout, with values of their types. -/
def StorageLayout.TypedIn (layout : StorageLayout) (bank : Bank) : Prop :=
  ∀ cell ∈ layout.cells, ∃ v : Value, v.dataType = cell.dataType ∧
    bank.lookup cell.symbol = some v.toBytes

theorem Node.WellFormed.dataType_of_initial? {n : Node} (hn : n.WellFormed) {p : Port}
    (hp : p ∈ n.inputs) {v : Value} (h : StorageLayout.initial? p = some v) :
    v.dataType = p.dataType := by
  have hholds := hn.inputs_hold p hp
  unfold StorageLayout.initial? at h
  cases hvalue : p.value with
  | none =>
      rw [hvalue] at h
      exact DataType.zero_dataType h
  | some w =>
      rw [hvalue] at h hholds
      cases h
      obtain ⟨z, -, hz⟩ := Option.map_eq_some_iff.1 hholds.symm
      exact hz.symm

/-- New cells hold values of their types. -/
theorem StorageLayout.typedIn_initialBank {g : Graph} (hg : g.WellFormed) (ix : Index) :
    (build g ix).TypedIn (Backend.initialBank (build g ix).cells) := by
  intro cell hcell
  refine ⟨cell.initial, ?_, Backend.lookup_initialBank (nodup_symbols g ix) hcell⟩
  rcases mem_addCells hcell with hnone | ⟨n, p, hinput, -, htype, hinitial, -⟩
  · contradiction
  · obtain ⟨k, hk, hports⟩ := List.mem_flatMap.1 hinput
    obtain ⟨q, hq, hpair⟩ := List.mem_map.1 hports
    cases hpair
    rw [htype]
    exact (hg.nodes_wellFormed n (List.mem_filter.1 hk).1).dataType_of_initial?
      (List.mem_filter.1 hq).1 hinitial

/-- What the cells hold can be told by their ports. -/
theorem StorageLayout.TypedIn.exists_holds {layout : StorageLayout} {bank : Bank}
    (h : layout.TypedIn bank)
    (hfound : ∀ cell ∈ layout.cells, layout.cell? cell.port = some cell) :
    ∃ contents, layout.Holds bank contents := by
  have : Nonempty Value := ⟨.bool false⟩
  choose! value htype hlookup using h
  refine ⟨fun port => ((layout.cell? port).map value).getD (.bool false), ?_⟩
  intro cell hcell
  dsimp only
  rw [hfound cell hcell]
  exact ⟨hlookup cell hcell, htype cell hcell⟩

namespace Evaluator

variable {e e' : Evaluator} {globals : CompiledGlobals} {layout : StorageLayout} {k : Nat}

/-- What an operation can do to compiled cells. -/
inductive CellChange (e : Evaluator) : Evaluator → Prop
  | keep {e' : Evaluator} (graph : e.graph.Reachable → e'.graph.Reachable)
      (globals : ∀ after, e'.cache.globals = some after → ∃ before,
        e.cache.globals = some before ∧ after.layout = before.layout ∧ after.bank = before.bank)
      (banks : e'.banks = e.banks) : CellChange e e'
  | put {globals : CompiledGlobals} {cell : StorageCell} {value : Value}
      (installed : e.cache.globals = some globals) (mem : cell ∈ globals.layout.cells)
      (type : value.dataType = cell.dataType) :
      CellChange e (e.putCell globals.bank cell.symbol value)
  | install {e' : Evaluator} {globals : CompiledGlobals} {ix : Index}
      (graph : e'.graph = e.graph) (installed : e'.cache.globals = some globals)
      (layout : globals.layout = StorageLayout.build e.graph ix)
      (bank : globals.bank = e.banks.length)
      (banks : e'.banks = e.banks ++ [Backend.initialBank globals.layout.cells]) :
      CellChange e e'

abbrev CellChanges : Evaluator → Evaluator → Prop := Relation.ReflTransGen CellChange

/-- The cells of the layout are in this bank, with values of their types, and the bank has no
other cells. -/
structure TypedBank (e : Evaluator) (layout : StorageLayout) (k : Nat) : Prop where
  found : ∀ cell ∈ layout.cells, layout.cell? cell.port = some cell
  symbols : (layout.cells.map StorageCell.symbol).Nodup
  bank : k < e.banks.length
  typed : layout.TypedIn (e.bank k)
  layout_eq : ∀ globals, e.cache.globals = some globals → globals.bank = k →
    globals.layout = layout

theorem TypedBank.putCell (h : e.TypedBank layout k) (hglobals : e.cache.globals = some globals)
    {cell : StorageCell} (hcell : cell ∈ globals.layout.cells) {value : Value}
    (htype : value.dataType = cell.dataType) :
    (e.putCell globals.bank cell.symbol value).TypedBank layout k where
  found := h.found
  symbols := h.symbols
  bank := by
    change k < (e.banks.modify _ _).length
    rw [List.length_modify]
    exact h.bank
  typed := by
    intro other hother
    obtain ⟨v, hv, hlookup⟩ := h.typed other hother
    rw [bank_putCell]
    by_cases hbank : globals.bank = k
    · rw [if_pos hbank]
      rw [h.layout_eq globals hglobals hbank] at hcell
      by_cases hsymbol : cell.symbol = other.symbol
      · obtain rfl := List.inj_on_of_nodup_map h.symbols hcell hother hsymbol
        refine ⟨value, htype, Bank.lookup_put_self ?_ _⟩
        obtain ⟨before, after, hsplit, -⟩ := List.lookup_eq_some_iff.1 hlookup
        simp [hsplit]
      · rw [Bank.lookup_put_of_ne _ hsymbol]
        exact ⟨v, hv, hlookup⟩
    · rw [if_neg hbank]
      exact ⟨v, hv, hlookup⟩
  layout_eq := h.layout_eq

/-- A bank once compiled stays typed, whatever is compiled later. -/
theorem CellChange.typedBank (hchange : e.CellChange e') (h : e.TypedBank layout k) :
    e'.TypedBank layout k := by
  cases hchange with
  | keep _ hglobals hbanks =>
      refine ⟨h.found, h.symbols, hbanks ▸ h.bank, ?_, ?_⟩
      · unfold Evaluator.bank
        rw [hbanks]
        exact h.typed
      · intro after hafter hbank
        obtain ⟨before, hbefore, hlayout, hsame⟩ := hglobals after hafter
        rw [hlayout]
        exact h.layout_eq before hbefore (hsame.symm.trans hbank)
  | put hglobals hcell htype => exact h.putCell hglobals hcell htype
  | install _ hinstalled _ hnew hbanks =>
      refine ⟨h.found, h.symbols, ?_, ?_, ?_⟩
      · rw [hbanks, List.length_append]
        exact Nat.lt_add_right _ h.bank
      · unfold Evaluator.bank
        rw [hbanks, List.getElem?_append_left h.bank]
        exact h.typed
      · intro after hafter hbank
        rw [hinstalled] at hafter
        cases hafter
        have hlt := h.bank
        omega

/-- The compiled cells hold values of their types. -/
structure CellsTyped (e : Evaluator) : Prop where
  graph : e.graph.Reachable
  cells : ∀ globals, e.cache.globals = some globals → e.TypedBank globals.layout globals.bank

theorem CellChange.cellsTyped (hchange : e.CellChange e') (h : e.CellsTyped) : e'.CellsTyped := by
  have hkept : ∀ {before after : CompiledGlobals}, e.cache.globals = some before →
      after.layout = before.layout → after.bank = before.bank →
      e'.TypedBank after.layout after.bank := by
    intro before after hbefore hlayout hbank
    rw [hlayout, hbank]
    exact hchange.typedBank (h.cells before hbefore)
  cases hchange with
  | keep hgraph hglobals _ =>
      refine ⟨hgraph h.graph, ?_⟩
      intro after hafter
      obtain ⟨before, hbefore, hlayout, hbank⟩ := hglobals after hafter
      exact hkept hbefore hlayout hbank
  | put _ _ _ => exact ⟨h.graph, fun globals hglobals => hkept hglobals rfl rfl⟩
  | install hgraph hinstalled hlayout hnew hbanks =>
      refine ⟨hgraph ▸ h.graph, ?_⟩
      intro after hafter
      rw [hinstalled] at hafter
      cases hafter
      refine ⟨?_, ?_, ?_, ?_, ?_⟩
      · rw [hlayout]
        exact fun _ => StorageLayout.cell?_of_mem h.graph.wellFormed
      · rw [hlayout]
        exact StorageLayout.nodup_symbols _ _
      · rw [hnew, hbanks, List.length_append]
        exact Nat.lt_succ_self _
      · unfold Evaluator.bank
        rw [hnew, hbanks, List.getElem?_concat_length, hlayout]
        exact StorageLayout.typedIn_initialBank h.graph.wellFormed _
      · intro other hother _
        rw [hinstalled] at hother
        cases hother
        rfl

/-! ## Operations -/

/-- Nothing happens to the cells. -/
theorem CellChange.of_same (hgraph : e'.graph = e.graph)
    (hglobals : e'.cache.globals = e.cache.globals) (hbanks : e'.banks = e.banks) :
    e.CellChange e' := by
  refine .keep (fun h => hgraph ▸ h) ?_ hbanks
  intro after hafter
  rw [hglobals] at hafter
  exact ⟨after, hafter, rfl, rfl⟩

/-- The backend of the cells grows by what it compiles. -/
theorem CellChange.of_setBackend (e : Evaluator) {backend : Backend} {cache : Cache}
    (h : cache.globals = (e.cache.setBackend backend).globals) :
    e.CellChange { e with cache } := by
  refine .keep id ?_ rfl
  intro after hafter
  change cache.globals = some after at hafter
  rw [h] at hafter
  obtain ⟨before, hbefore, rfl⟩ := Option.map_eq_some_iff.1 hafter
  exact ⟨before, hbefore, rfl, rfl⟩

theorem CellChange.of_invalidate (e : Evaluator) (version : Version) :
    e.CellChange (e.invalidate version).2 :=
  .keep id (fun after hafter => ⟨after, Option.eq_some_of_filter_eq_some hafter, rfl, rfl⟩) rfl

theorem CellChange.of_writeCell {port : PortRef} {value : Value}
    (hglobals : e.cache.globals = some globals)
    (h : e.writeCell globals port value = .ok e') : e.CellChange e' := by
  obtain ⟨cell, hcell, htype, rfl⟩ := writeCell_eq_ok h
  exact .put hglobals (StorageLayout.mem_of_cell? hcell).1 htype

theorem cellChanges_syncCells (g : Graph) (written : Nat) (cells : List StorageCell)
    (hglobals : e.cache.globals = some globals) :
    e.CellChanges (syncCells globals g written cells e).2 := by
  induction cells generalizing e written with
  | nil => exact .refl
  | cons cell cells ih =>
      unfold syncCells
      split
      · exact .refl
      · split
        · exact ih written hglobals
        · split
          · exact .refl
          · rename_i hwrite
            have hchange := CellChange.of_writeCell hglobals hwrite
            obtain ⟨_, -, -, rfl⟩ := writeCell_eq_ok hwrite
            exact .head hchange (ih _ hglobals)

theorem cellChanges_syncFrom (g : Graph) (hglobals : e.cache.globals = some globals) :
    e.CellChanges (e.syncFrom globals g).2 := by
  unfold syncFrom
  split
  · exact cellChanges_syncCells g 0 _ hglobals
  · exact .refl

theorem cellChanges_setInput (he : e.Coherent) (port : PortRef) (value : Value) :
    e.CellChanges (e.setInput port value).2 := by
  unfold setInput
  rcases writeInput_cases e port value with ⟨err, hwrite⟩ | ⟨globals, cell, hglobals, hcell,
    htype, hwrite⟩
  · rw [hwrite]
  · have hput : e.CellChange (e.putCell globals.bank cell.symbol value) :=
      .put (globals_of_currentGlobals he hglobals) (StorageLayout.mem_of_cell? hcell).1 htype
    simp only [hwrite]
    split
    · exact .single hput
    · rename_i graph hset
      refine .tail (.single hput) (.keep (fun h => h.setInputValue hset) ?_ rfl)
      exact fun after hafter => ⟨after, hafter, rfl, rfl⟩

theorem cellChanges_replaceGraph (he : e.Coherent) {g : Graph} (hg : g.Reachable) :
    e.CellChanges (e.replaceGraph g).2 := by
  have htake : ∀ {cache : Cache} {stale : Bool},
      (∀ after, cache.globals = some after → e.cache.globals = some after) →
      e.CellChange { e with graph := g.remember, cache, stale } := fun hkept =>
    .keep (fun _ => hg.remember) (fun after hafter => ⟨after, hkept after hafter, rfl, rfl⟩) rfl
  by_cases hversion : g.version = e.version
  · cases hglobals : e.cache.globals with
    | none =>
        rw [replaceGraph_of_uninstalled hversion hglobals]
        exact .single (htake fun _ h => h)
    | some globals =>
        rw [replaceGraph_of_installed he hversion hglobals rfl]
        exact .head (htake fun _ h => h) (cellChanges_syncFrom _ hglobals)
  · rw [replaceGraph_of_ne hversion]
    exact .single (htake fun _ h => Option.eq_some_of_filter_eq_some h)

theorem Ensured.cellChange (h : e.Ensured globals e') : e.CellChange e' := by
  cases hbefore : e.cache.globals with
  | some before =>
      obtain ⟨rfl, hbanks, -⟩ := h.kept before hbefore
      exact .of_same h.graph (h.installed.trans hbefore.symm) hbanks
  | none =>
      obtain ⟨hlayout, hbank, hbanks, -⟩ := h.fresh hbefore
      exact .install h.graph h.installed hlayout hbank (hlayout ▸ hbanks)

theorem cellChanges_compile (he : e.Coherent) (r : UnitRequest) :
    e.CellChanges (e.compile r).2 := by
  have hcounted : ∀ stats, e.CellChange (e.counted stats) := fun stats =>
    .of_same (counted_graph e stats) rfl (counted_banks e stats)
  have hasks := asks_compile he r
  generalize e.compile r = outcome at hasks ⊢
  obtain ⟨result, e'⟩ := outcome
  cases hasks with
  | refused _ => exact .refl
  | found _ _ => exact .single (hcounted _)
  | failed _ _ ensured _ =>
      exact .tail (.tail (.single (hcounted _)) ensured.cellChange) (.of_setBackend _ rfl)
  | built _ _ ensured _ =>
      exact .tail (.tail (.single (hcounted _)) ensured.cellChange) (.of_setBackend _ rfl)

theorem cellChanges_step (he : e.Coherent) {command : Command}
    (hgraph : ∀ g, command.graph? = some g → g.Reachable) :
    e.CellChanges (e.step command) := by
  have hrefresh : e.CellChange e.refresh :=
    .of_same (graph_refresh e) (congrArg Cache.globals (cache_refresh e)) (banks_refresh e)
  cases command with
  | replaceGraph g => exact cellChanges_replaceGraph he (hgraph g rfl)
  | markStale =>
      exact .tail (.single (.of_invalidate e e.version)) (.of_same rfl rfl rfl)
  | invalidate version => exact .single (.of_invalidate e version)
  | index => exact .single hrefresh
  | ensureGlobals =>
      obtain ⟨globals, e', hensure, hensured⟩ := exists_ensured he
      rw [step, hensure]
      exact .single hensured.cellChange
  | compile r => exact cellChanges_compile he r
  | code r => exact .single hrefresh
  | writeInput port value =>
      rw [step]
      rcases writeInput_cases e port value with ⟨err, hwrite⟩ | ⟨globals, cell, hglobals, hcell,
        htype, hwrite⟩
      · rw [hwrite]
      · rw [hwrite]
        exact .single (.put (globals_of_currentGlobals he hglobals)
          (StorageLayout.mem_of_cell? hcell).1 htype)
  | setInput port value => exact cellChanges_setInput he port value
  | readInput port => exact .refl
  | syncInputs =>
      rw [step]
      unfold syncInputs
      split
      · exact .refl
      · rename_i globals hglobals
        exact cellChanges_syncFrom _ (globals_of_currentGlobals he hglobals)
  | invoke unit values => exact .refl
  | evaluate outputs =>
      rw [step, evaluate, snd_evaluateRequest]
      exact cellChanges_compile he _
  | evaluateWith inputs values outputs =>
      rw [step, evaluateWith, snd_evaluateRequest]
      exact cellChanges_compile he _

theorem cellChanges_after (he : e.Coherent) {commands : List Command}
    (hgraphs : ∀ command ∈ commands, ∀ g, command.graph? = some g → g.Reachable) :
    e.CellChanges (e.after commands) := by
  induction commands generalizing e with
  | nil => exact .refl
  | cons command commands ih =>
      rw [List.forall_mem_cons] at hgraphs
      exact (cellChanges_step he hgraphs.1).trans
        (ih (Changes.coherent (changes_step he command) he) hgraphs.2)

/-! ## Runs -/

theorem cellsTyped_new {g : Graph} (hg : g.Reachable) (options : Options) :
    (new g options).CellsTyped :=
  ⟨hg.remember, fun _ hglobals => by contradiction⟩

theorem CellChanges.cellsTyped (hchanges : e.CellChanges e') (h : e.CellsTyped) :
    e'.CellsTyped := by
  induction hchanges with
  | refl => exact h
  | tail _ hchange ih => exact hchange.cellsTyped ih

theorem CellChanges.typedBank (hchanges : e.CellChanges e') (h : e.TypedBank layout k) :
    e'.TypedBank layout k := by
  induction hchanges with
  | refl => exact h
  | tail _ hchange ih => exact hchange.typedBank ih

/-- After any operations, the cells that were once compiled hold values of their types. -/
theorem exists_holds_after {g : Graph} {options : Options} {commands later : List Command}
    (hgraphs : ∀ k ∈ graphsOf g (commands ++ later), k.Reachable)
    (hglobals : ((new g options).after commands).cache.globals = some globals) :
    ∃ contents,
      globals.layout.Holds (((new g options).after (commands ++ later)).bank globals.bank)
        contents := by
  have hcommands : ∀ {some : List Command}, some ⊆ commands ++ later →
      ∀ command ∈ some, ∀ k, command.graph? = Option.some k → k.Reachable :=
    fun hsubset command hmem k hk => hgraphs k (mem_graphsOf (hsubset hmem) hk)
  have htyped : ((new g options).after commands).CellsTyped :=
    (cellChanges_after (coherent_new g options)
      (hcommands (List.subset_append_left _ _))).cellsTyped
      (cellsTyped_new (hgraphs g List.mem_cons_self) options)
  have happend : (new g options).after (commands ++ later) =
      ((new g options).after commands).after later := List.foldl_append
  rw [happend]
  have hlater := (cellChanges_after (coherent_after g options commands)
    (hcommands (List.subset_append_right _ _))).typedBank (htyped.cells globals hglobals)
  exact hlater.typed.exists_holds hlater.found

end Evaluator

/-! ## Nodes of stock kinds -/

/-- The nodes of stock kinds compute what their kinds say, and no division traps. In every run of a
unit of the graph, generated with any order of the dependencies, the truth values that come from
them, from the cells and from the caller are the bytes 0 and 1; the cells of an evaluator hold such
bytes whatever operations there are. -/
theorem stock_kinds_compute {g : Graph} (hg : g.Reachable) :
    (∀ n ∈ g.nodes, n.FollowsKind) ∧
    (g.ReroutesTyped → ∀ {edges : List (String × String)}, edges.Perm (Index.build g).edges →
      ∀ {r : UnitRequest} {b b₁ b₂ b₃ : Backend} {unit : GeneratedUnit},
      b.generate g ((Index.build g).listing edges) g.layout r = (.ok unit, b₁) →
      b₂.compileUnit unit = (.ok (), b₃) →
      ∀ {bank : Bank} {cells : PortRef → Value} {values : List Value},
        g.layout.Holds bank cells →
        List.Forall₂ (fun port v => g.HasOutput port v.dataType) r.graphInputs values →
        (∀ n ∈ g.nodes, n.name ∈ unit.nodeOrder → ∀ k, n.kind = .host k →
          g.KeepsContract (r.graphInputs.zip values) cells n b₂.verify) →
        ∀ number, (CompiledUnit.ofGenerated unit number).RunsOnTruths g cells bank values) ∧
    ∀ (options : Options) (commands later : List Evaluator.Command) {globals : CompiledGlobals},
      (∀ k ∈ Evaluator.graphsOf g (commands ++ later), k.Reachable) →
      ((Evaluator.new g options).after commands).cache.globals = some globals →
      ∃ cells, globals.layout.Holds
          (((Evaluator.new g options).after (commands ++ later)).bank globals.bank) cells ∧
        ∀ cell ∈ globals.layout.cells, cell.dataType = .bool →
          (cells cell.port).toBytes.IsTruth := by
  refine ⟨fun n hn => (hg.wellFormed.nodes_wellFormed n hn).followsKind, ?_, ?_⟩
  · intro hreroutes edges hedges r b b₁ b₂ b₃ unit hgenerate hcompile bank cells values hcells
      hvalues hhost number
    exact CompiledUnit.runsOnTruths_listing hg hreroutes hedges hcells hvalues hgenerate hcompile
      hhost number
  · intro options commands later globals hgraphs hglobals
    obtain ⟨cells, hcells⟩ := Evaluator.exists_holds_after hgraphs hglobals
    refine ⟨cells, hcells, ?_⟩
    intro cell hcell hbool
    exact Value.isTruth_toBytes ((hcells cell hcell).2.trans hbool)

/-! ## A guarded quotient -/

namespace GuardedQuotient

def source : Node := ⟨"source", .graphInput [⟨"x", .bool⟩], [], [⟨"x", .bool, none⟩]⟩

def same : Node :=
  ⟨"same", .compare .eq .bool,
    [⟨"a", .bool, some (.bool false)⟩, ⟨"b", .bool, some (.bool false)⟩],
    [⟨"result", .bool, none⟩]⟩

def quotient : Node :=
  ⟨"quotient", .math .div .i32, [⟨"a", .i32, some (.i32 0)⟩, ⟨"b", .i32, some (.i32 0)⟩],
    [⟨"result", .i32, none⟩]⟩

def chosen : Node :=
  ⟨"chosen", .select .i32,
    [⟨"condition", .bool, some (.bool false)⟩, ⟨"if_true", .i32, some (.i32 0)⟩,
      ⟨"if_false", .i32, some (.i32 0)⟩],
    [⟨"result", .i32, none⟩]⟩

/-- A quotient of two cells, chosen where a supplied truth value is that of a cell. -/
def graph : Graph where
  name := "guarded quotient"
  nodes := [source, same, quotient, chosen]
  links := [⟨⟨"same", "a"⟩, ⟨"source", "x"⟩⟩, ⟨⟨"chosen", "condition"⟩, ⟨"same", "result"⟩⟩,
    ⟨⟨"chosen", "if_true"⟩, ⟨"quotient", "result"⟩⟩]
  token := none

def request : UnitRequest :=
  ⟨[⟨"chosen", "result"⟩, ⟨"same", "result"⟩], [⟨"source", "x"⟩]⟩

def plan : UnitPlan where
  version := graph.version
  outputs := [(⟨"chosen", "result"⟩, .i32), (⟨"same", "result"⟩, .bool)]
  outputLayout := ⟨[⟨.i32, 0⟩, ⟨.bool, 4⟩], 8, 4⟩
  bindings := ⟨[(⟨"source", "x"⟩, .bool)]⟩
  inputLayout := ⟨[⟨.bool, 0⟩], 1, 1⟩
  order := [source, same, quotient, chosen]

theorem reachable : graph.Reachable := by
  have h₁ : Graph.Reachable ⟨"guarded quotient", [source], [], none⟩ :=
    .addNode (.empty _) (show (Graph.empty "guarded quotient").addNode "source" source.kind =
      .ok (source, _) from rfl)
  have h₂ : Graph.Reachable ⟨"guarded quotient", [source, same], [], none⟩ :=
    .addNode h₁ (show Graph.addNode _ "same" same.kind = .ok (same, _) from rfl)
  have h₃ : Graph.Reachable ⟨"guarded quotient", [source, same, quotient], [], none⟩ :=
    .addNode h₂ (show Graph.addNode _ "quotient" quotient.kind = .ok (quotient, _) from rfl)
  have h₄ : Graph.Reachable ⟨"guarded quotient", [source, same, quotient, chosen], [], none⟩ :=
    .addNode h₃ (show Graph.addNode _ "chosen" chosen.kind = .ok (chosen, _) from rfl)
  have h₅ := Graph.Reachable.link h₄
    (show Graph.link _ ⟨"source", "x"⟩ ⟨"same", "a"⟩ = .ok (none, _) from rfl)
  have h₆ := Graph.Reachable.link h₅
    (show Graph.link _ ⟨"same", "result"⟩ ⟨"chosen", "condition"⟩ = .ok (none, _) from rfl)
  exact .link h₆
    (show Graph.link _ ⟨"quotient", "result"⟩ ⟨"chosen", "if_true"⟩ = .ok (none, _) from rfl)

theorem reroutesTyped : graph.ReroutesTyped := by
  intro n hn hreroute
  simp only [graph, List.mem_cons, List.not_mem_nil, or_false] at hn
  rcases hn with rfl | rfl | rfl | rfl <;> contradiction

theorem order_eq : evaluationOrder graph (Index.build graph) ["source"] ["chosen", "same"] =
    .ok [source, same, quotient, chosen] := by
  have hedges : (Index.build graph).edges =
      [("same", "source"), ("chosen", "same"), ("chosen", "quotient")] := by decide +kernel
  have hneeds : Schedule.needs [("same", "source"), ("chosen", "same"), ("chosen", "quotient")]
      ["source"] = fun node => if node = "same" then ["source"] else
        if node = "chosen" then ["same", "quotient"] else [] := by
    funext node
    by_cases hsame : node = "same"
    · subst hsame
      rfl
    · by_cases hchosen : node = "chosen"
      · subst hchosen
        rfl
      · rw [if_neg hsame, if_neg hchosen]
        simp [Schedule.needs, Ne.symm hsame, Ne.symm hchosen]
  simp only [evaluationOrder, scheduleRoots, Index.contains, hedges, hneeds, ← Option.not_isSome]
  simp only [Index.build]
  cbv

theorem plan_made : UnitPlan.make graph (Index.build graph)
    (StorageLayout.build graph (Index.build graph)) request = .ok plan := by
  refine UnitPlan.make_of_parts rfl (by decide) ?_ (by decide) ?_ (by decide) order_eq
  · decide +kernel
  · decide +kernel

theorem built : ((Backend.new {}).build graph (Index.build graph)
    (StorageLayout.build graph (Index.build graph)) request).1.isOk = true := by
  simp only [Backend.build, Backend.generate, generateUnit, plan_made]
  decide +kernel

/-- The least number is to be divided by -1, and the supplied truth value is that of the cell. -/
def bank : Bank :=
  [("same - b", [1]), ("quotient - a", (Value.i32 (BitVec.intMin 32)).toBytes),
    ("quotient - b", (Value.i32 (-1)).toBytes), ("chosen - if_false", (Value.i32 7).toBytes)]

def contents (port : PortRef) : Value :=
  if port.node = "same" then .bool true
  else if port.node = "chosen" then .i32 7
  else if port.port = "a" then .i32 (BitVec.intMin 32) else .i32 (-1)

theorem holds : (StorageLayout.build graph (Index.build graph)).Holds bank contents := by
  unfold StorageLayout.Holds
  decide +kernel

/-- The least number is divided by -1, in a unit and with cells that an evaluator compiles. -/
theorem stock_kinds_compute_guardedQuotient :
    quotient.Computes [.i32 (BitVec.intMin 32), .i32 (-1)] [.i32 (BitVec.intMin 32)] ∧
    (∃ unit b₁ b₂, (Backend.new {}).generate graph (Index.build graph)
        (StorageLayout.build graph (Index.build graph)) request = (.ok unit, b₁) ∧
      b₁.compileUnit unit = (.ok (), b₂) ∧
      (CompiledUnit.ofGenerated unit 0).RunsOnTruths graph contents bank [.bool true]) ∧
    ∃ globals, ((Evaluator.new graph {}).after [.ensureGlobals]).cache.globals = some globals ∧
      ∃ cells, globals.layout.Holds (((Evaluator.new graph {}).after
          [.ensureGlobals, .writeInput ⟨"same", "b"⟩ (.bool true)]).bank globals.bank) cells ∧
        ∀ cell ∈ globals.layout.cells, cell.dataType = .bool →
          (cells cell.port).toBytes.IsTruth := by
  obtain ⟨hfollows, hruns, hstays⟩ := stock_kinds_compute reachable
  refine ⟨(hfollows quotient (by simp [graph])).divide_least .i32 rfl, ?_, ?_⟩
  · obtain ⟨unit, b₁, b₂, hgenerate, hcompile⟩ := Backend.exists_of_build built
    have hstock : ∀ n ∈ graph.nodes, ∀ k, n.kind ≠ .host k := by
      intro n hn k hk
      simp only [graph, List.mem_cons, List.not_mem_nil, or_false] at hn
      rcases hn with rfl | rfl | rfl | rfl <;> cases hk
    have hsupplied : graph.HasOutput ⟨"source", "x"⟩ .bool := ⟨⟨"x", .bool, none⟩, rfl, rfl⟩
    have hvalues : List.Forall₂ (fun port (v : Value) => graph.HasOutput port v.dataType)
        request.graphInputs [.bool true] := .cons hsupplied .nil
    exact ⟨unit, b₁, b₂, hgenerate, hcompile,
      hruns reroutesTyped (.refl _) hgenerate hcompile holds hvalues
        (fun n hn _ k hk => absurd hk (hstock n hn k)) 0⟩
  · obtain ⟨globals, e, hensure, hensured⟩ :=
      Evaluator.exists_ensured (Evaluator.coherent_new graph {})
    have hafter : (Evaluator.new graph {}).after [.ensureGlobals] = e :=
      congrArg Prod.snd hensure
    have hglobals : ((Evaluator.new graph {}).after [.ensureGlobals]).cache.globals =
        some globals := hafter ▸ hensured.installed
    refine ⟨globals, hglobals, hstays {} [.ensureGlobals] _ ?_ hglobals⟩
    intro k hk
    obtain rfl : k = graph := by simpa [Evaluator.graphsOf, Evaluator.Command.graph?] using hk
    exact reachable

end GuardedQuotient

end Dataflow
