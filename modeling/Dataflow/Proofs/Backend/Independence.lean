import Dataflow.Proofs.Backend.Growth
import Dataflow.Proofs.Unit.Generability

/-!
# What earlier calls have to do with later ones

A backend that has compiled the cells of a graph is asked for units of that graph. A generation
that fails leaves its functions declared and its number to the next one, so the two may meet
under one name. `Backend.generates_agree_iff` says when earlier calls decide the fate of a
request: exactly when it can be generated at all and its functions fit into one of the two
backends only, the used one or the one that has compiled the cells and nothing else.
`Backend.generates_agree` gives a condition on requests: functions of the request differ from
the cells in name, and agree in their parameters with the functions of the requests that have
failed since the last unit was generated.
-/

namespace Dataflow

open Ir

namespace Backend

/-- What a backend is asked for once the cells are compiled. -/
inductive Call
  | generate (r : UnitRequest)
  | compileUnit (unit : GeneratedUnit)
deriving DecidableEq, Repr

/-- The backend after a call, whether it has succeeded or failed. -/
def step (g : Graph) (b : Backend) : Call → Backend
  | .generate r => (b.generate g (Index.build g) g.layout r).2
  | .compileUnit unit => (b.compileUnit unit).2

/-- A new backend that has compiled the cells of the graph. -/
def start (options : Options) (g : Graph) : Backend :=
  ((Backend.new options).compileGlobals g.layout).2

/-- The backend after a sequence of calls. -/
def after (options : Options) (g : Graph) (calls : List Call) : Backend :=
  calls.foldl (step g) (start options g)

/-- The backend generates a unit for the request. -/
def Generates (b : Backend) (g : Graph) (r : UnitRequest) : Prop :=
  ∃ unit b', b.generate g (Index.build g) g.layout r = (.ok unit, b')

/-- The functions that the request has in the graph's unit of this number. -/
def UnitFunction (g : Graph) (r : UnitRequest) (sequence : Nat) : String → List Ty → Prop :=
  IsUnitFunction g (Index.build g) g.layout r sequence

/-- The functions of the unit that comes next can all be declared. -/
def HasRoomFor (b : Backend) (g : Graph) (r : UnitRequest) : Prop :=
  ∀ name params, UnitFunction g r (b.sequence + 1) name params → b.table.Admits name params

variable {b : Backend} {g : Graph} {r : UnitRequest}

theorem generates_iff_run : b.Generates g r ↔ ∃ unit t',
    (generateUnit g (Index.build g) g.layout r (b.sequence + 1)).run b.table = (.ok unit, t') := by
  constructor
  · rintro ⟨unit, b', h⟩
    exact ⟨unit, b'.table, (generate_eq_ok h).1⟩
  · rintro ⟨unit, t', h⟩
    unfold Generates generate
    simp only
    rw [h]
    exact ⟨unit, _, rfl⟩

theorem generates_iff (hb : b.table.Ready g.layout) :
    b.Generates g r ↔ Generable g (Index.build g) g.layout r ∧ b.HasRoomFor g r :=
  generates_iff_run.trans (generateUnit_ok_iff hb)

theorem generates_iff_isOk :
    b.Generates g r ↔ (b.generate g (Index.build g) g.layout r).1.isOk = true := by
  unfold Generates
  generalize b.generate g (Index.build g) g.layout r = outcome
  obtain ⟨_ | unit, b'⟩ := outcome <;> simp [Except.isOk, Except.toBool]

/-! ## Cells are compiled -/

/-- Cells with new and distinct symbols can all be defined. -/
theorem defineCells_of_nodup {t : SymbolTable} {cells : List StorageCell}
    (hfunctions : t.functions = []) (hnodup : (cells.map StorageCell.symbol).Nodup)
    (hnew : ∀ cell ∈ cells, cell.symbol ∉ t.cellNames ∧ cell.symbol ∉ t.definedCells) :
    ∃ bank t', defineCells t cells = (.ok bank, t') ∧ t'.functions = [] ∧
      t'.cellNames = t.cellNames ++ cells.map StorageCell.symbol := by
  induction cells generalizing t with
  | nil => exact ⟨[], t, rfl, hfunctions, by simp⟩
  | cons cell cells ih =>
      obtain ⟨hfirst, hnodup'⟩ := List.nodup_cons.1 hnodup
      obtain ⟨hcell, hundefined⟩ := hnew cell List.mem_cons_self
      have hunknown : t.signature? cell.symbol = none := by
        unfold SymbolTable.signature? SymbolTable.signatures
        rw [hfunctions]
        rfl
      obtain ⟨known, declared, hdeclare, hnames⟩ := t.declareCell_of_unknown .exported hunknown
      rw [if_neg hcell] at hnames
      let t₁ : SymbolTable :=
        { t with cells := declared, definedCells := cell.symbol :: t.definedCells }
      have hdefine : SymbolTable.defineCell { t with cells := declared } cell.symbol = .ok t₁ := by
        unfold SymbolTable.defineCell
        rw [if_neg (by simpa using hundefined)]
      have hrest : ∀ other ∈ cells,
          other.symbol ∉ t₁.cellNames ∧ other.symbol ∉ t₁.definedCells := by
        intro other hother
        have hne : other.symbol ≠ cell.symbol := by
          intro heq
          exact hfirst (heq ▸ List.mem_map_of_mem hother)
        obtain ⟨hcell', hundefined'⟩ := hnew other (List.mem_cons_of_mem _ hother)
        refine ⟨?_, ?_⟩
        · change other.symbol ∉ declared.map CellSymbol.name
          rw [hnames]
          simp [hcell', hne]
        · change other.symbol ∉ cell.symbol :: t.definedCells
          simp [hundefined', hne]
      obtain ⟨bank, t', hcells, hfunctions', hnames'⟩ := ih (t := t₁) hfunctions hnodup' hrest
      refine ⟨(cell.symbol, cell.initial.toBytes) :: bank, t', ?_, hfunctions', ?_⟩
      · unfold defineCells
        simp only [hdeclare, hdefine, hcells]
      · rw [hnames']
        change declared.map CellSymbol.name ++ _ = _
        rw [hnames, List.append_assoc]
        rfl

/-- The cells of a graph can be compiled into any new backend, which then knows their symbols
and no function. -/
theorem start_table (options : Options) (g : Graph) :
    (∃ bank, (Backend.new options).compileGlobals g.layout = (.ok bank, start options g)) ∧
      (start options g).table.functions = [] ∧
      (start options g).table.cellNames = g.layout.cells.map StorageCell.symbol := by
  have hempty : ∀ cell ∈ g.layout.cells, cell.symbol ∉ SymbolTable.empty.cellNames ∧
      cell.symbol ∉ SymbolTable.empty.definedCells :=
    fun _ _ => ⟨List.not_mem_nil, List.not_mem_nil⟩
  obtain ⟨bank, t, hcells, hfunctions, hnames⟩ := defineCells_of_nodup rfl
    (StorageLayout.nodup_symbols g (Index.build g)) hempty
  have hcompile : (Backend.new options).compileGlobals g.layout =
      (.ok bank, ⟨t, options.verify, 0⟩) := by
    have hdefine : defineCells (Backend.new options).table g.layout.cells = (.ok bank, t) :=
      hcells
    unfold compileGlobals
    rw [hdefine]
    rfl
  unfold start
  rw [hcompile]
  exact ⟨⟨bank, rfl⟩, hfunctions, hnames⟩

/-! ## Calls -/

/-- The requests that have failed since the last unit was generated. -/
def failures (g : Graph) (b : Backend) (failed : List UnitRequest) : Call → List UnitRequest
  | .generate r =>
      match (b.generate g (Index.build g) g.layout r).1 with
      | .ok _ => []
      | .error _ => r :: failed
  | .compileUnit _ => failed

def pendingFrom (g : Graph) (b : Backend) (failed : List UnitRequest) :
    List Call → List UnitRequest
  | [] => failed
  | call :: calls => pendingFrom g (b.step g call) (b.failures g failed call) calls

/-- The requests whose functions still stand under the number of the next unit. -/
def pending (options : Options) (g : Graph) (calls : List Call) : List UnitRequest :=
  pendingFrom g (start options g) [] calls

/-- What a backend knows: the cells of the graph, the functions of earlier units, and under the
next number functions of the requests that have failed. -/
structure Knows (g : Graph) (failed : List UnitRequest) (b : Backend) : Prop where
  ready : b.table.Ready g.layout
  cells : ∀ name ∈ b.table.cellNames, ∃ cell ∈ g.layout.cells, name = cell.symbol
  functions : ∀ s ∈ b.table.signatures, ∃ k q, UnitFunction g q k s.1 s.2 ∧
    (k ≤ b.sequence ∨ k = b.sequence + 1 ∧ q ∈ failed)

theorem knows_start (options : Options) (g : Graph) : (start options g).Knows g [] := by
  obtain ⟨-, hfunctions, hnames⟩ := start_table options g
  have hsignatures : (start options g).table.signatures = [] := by
    rw [SymbolTable.signatures, hfunctions]
    rfl
  refine ⟨⟨?_, ?_⟩, ?_, ?_⟩
  · intro name _
    rw [SymbolTable.signature?, hsignatures]
    rfl
  · intro cell hcell
    rw [hnames]
    exact List.mem_map_of_mem hcell
  · intro name hname
    rw [hnames] at hname
    obtain ⟨cell, hcell, rfl⟩ := List.mem_map.1 hname
    exact ⟨cell, hcell, rfl⟩
  · rw [hsignatures]
    intro s hs
    contradiction

variable {failed : List UnitRequest}

/-- Functions of the next unit may join, once it is generated or while it is not. -/
theorem Knows.grow (h : b.Knows g failed) {t : SymbolTable}
    (hgrows : b.table.Declares (UnitFunction g r (b.sequence + 1))
      (fun name => ∃ port cell, g.layout.cell? port = some cell ∧ name = cell.symbol) t) :
    Knows g [] { b with table := t, sequence := b.sequence + 1 } ∧
      Knows g (r :: failed) { b with table := t } := by
  have hready : t.Ready g.layout := h.ready.declares hgrows
  have hcells : ∀ name ∈ t.cellNames, ∃ cell ∈ g.layout.cells, name = cell.symbol := by
    obtain ⟨added, hadded, hnew⟩ := hgrows.cellNames
    intro name hname
    rw [hadded] at hname
    rcases List.mem_append.1 hname with hold | hname
    · exact h.cells name hold
    · obtain ⟨port, cell, hcell, rfl⟩ := hnew name hname
      exact ⟨cell, (StorageLayout.mem_of_cell? hcell).1, rfl⟩
  obtain ⟨added, hadded, hnew⟩ := hgrows.signatures
  refine ⟨⟨hready, hcells, ?_⟩, ⟨hready, hcells, ?_⟩⟩
  · intro s hs
    rw [hadded] at hs
    rcases List.mem_append.1 hs with hold | hs
    · obtain ⟨k, q, hfunction, hk⟩ := h.functions s hold
      refine ⟨k, q, hfunction, Or.inl ?_⟩
      change k ≤ b.sequence + 1
      omega
    · exact ⟨b.sequence + 1, r, hnew s hs, Or.inl (Nat.le_refl _)⟩
  · intro s hs
    rw [hadded] at hs
    rcases List.mem_append.1 hs with hold | hs
    · obtain ⟨k, q, hfunction, hk⟩ := h.functions s hold
      exact ⟨k, q, hfunction, hk.imp_right fun ⟨hk, hq⟩ => ⟨hk, List.mem_cons_of_mem _ hq⟩⟩
    · exact ⟨b.sequence + 1, r, hnew s hs, Or.inr ⟨rfl, List.mem_cons_self⟩⟩

theorem knows_generate (h : b.Knows g failed) (r : UnitRequest) :
    (b.step g (.generate r)).Knows g (b.failures g failed (.generate r)) := by
  have hgrows := declares_generateUnit g (Index.build g) g.layout r (b.sequence + 1) b.table
  obtain ⟨hsucceeded, hfailed⟩ := h.grow hgrows
  unfold step failures generate
  simp only
  cases hrun : (generateUnit g (Index.build g) g.layout r (b.sequence + 1)).run b.table with
  | mk result t =>
      rw [hrun] at hsucceeded hfailed
      cases result with
      | ok unit => exact hsucceeded
      | error e => exact hfailed

theorem knows_compileUnit (h : b.Knows g failed) (unit : GeneratedUnit) :
    (b.step g (.compileUnit unit)).Knows g failed := by
  obtain ⟨defined, hframe, -⟩ := compileUnit_frame b unit
  change (b.compileUnit unit).2.Knows g failed
  rw [hframe]
  exact ⟨⟨h.ready.apart, h.ready.cells⟩, h.cells, h.functions⟩

theorem knows_step (h : b.Knows g failed) (call : Call) :
    (b.step g call).Knows g (b.failures g failed call) := by
  cases call with
  | generate r => exact knows_generate h r
  | compileUnit unit => exact knows_compileUnit h unit

theorem knows_foldl (h : b.Knows g failed) (calls : List Call) :
    (calls.foldl (step g) b).Knows g (pendingFrom g b failed calls) := by
  induction calls generalizing b failed with
  | nil => exact h
  | cons call calls ih => exact ih (knows_step h call)

theorem knows_after (options : Options) (g : Graph) (calls : List Call) :
    (after options g calls).Knows g (pending options g calls) :=
  knows_foldl (knows_start options g) calls

/-! ## Independence -/

/-- The two requests would have units of this number with a function of one name and different
parameters. -/
def Clash (g : Graph) (q r : UnitRequest) (sequence : Nat) : Prop :=
  ∃ name params params', UnitFunction g q sequence name params ∧
    UnitFunction g r sequence name params' ∧ params ≠ params'

theorem not_clash_self (g : Graph) (r : UnitRequest) (sequence : Nat) :
    ¬ Clash g r r sequence := by
  rintro ⟨name, params, params', h, h', hne⟩
  exact hne (h.params_eq h')

/-- There is room for a request whose functions bear no cell's symbol and clash with none of the
requests that have failed. -/
theorem Knows.hasRoomFor (h : b.Knows g failed)
    (hcells : ∀ cell ∈ g.layout.cells, ∀ params,
      ¬ UnitFunction g r (b.sequence + 1) cell.symbol params)
    (hfailed : ∀ q ∈ failed, ¬ Clash g q r (b.sequence + 1)) : b.HasRoomFor g r := by
  intro name params hfunction
  refine ⟨?_, ?_⟩
  · intro hname
    obtain ⟨cell, hcell, rfl⟩ := h.cells name hname
    exact hcells cell hcell params hfunction
  · intro known hknown
    have hmem : (name, known) ∈ b.table.signatures := by
      obtain ⟨before, rest, hsplit, -⟩ := List.lookup_eq_some_iff.1 hknown
      rw [hsplit]
      simp
    obtain ⟨k, q, hdeclared, hk⟩ := h.functions (name, known) hmem
    obtain ⟨rest, hlabel⟩ := hfunction.label
    obtain ⟨rest', hlabel'⟩ := hdeclared.label
    have hsequence : k = b.sequence + 1 := by
      rw [String.append_assoc] at hlabel hlabel'
      exact sequence_eq_of_label (hlabel'.symm.trans hlabel)
    subst hsequence
    rcases hk with hk | ⟨-, hq⟩
    · omega
    · by_contra hne
      exact hfailed q hq ⟨name, known, params, hdeclared, hfunction, hne⟩

/-- Earlier calls do not decide whether a request is generated, as long as its functions bear no
cell's symbol and clash with none of the requests that have failed since the last unit. -/
theorem generates_agree (options : Options) (g : Graph) (calls : List Call) (r : UnitRequest)
    (hcells : ∀ cell ∈ g.layout.cells, ∀ k params, ¬ UnitFunction g r k cell.symbol params)
    (hfailed : ∀ q ∈ pending options g calls, q ≠ r →
      ¬ Clash g q r ((after options g calls).sequence + 1)) :
    (after options g calls).Generates g r ↔ (start options g).Generates g r := by
  have hafter := knows_after options g calls
  have hstart := knows_start options g
  have hroom : (after options g calls).HasRoomFor g r := by
    apply hafter.hasRoomFor fun cell hcell params => hcells cell hcell _ params
    intro q hq
    by_cases hqr : q = r
    · rw [hqr]
      exact not_clash_self g r _
    · exact hfailed q hq hqr
  have hroom' : (start options g).HasRoomFor g r :=
    hstart.hasRoomFor (fun cell hcell params => hcells cell hcell _ params)
      (fun q hq => by contradiction)
  rw [generates_iff hafter.ready, generates_iff hstart.ready]
  simp only [hroom, hroom']

/-- Earlier calls decide whether a request is generated exactly when it can be generated at all
and one of the two backends, but not the other, has room for its functions. -/
theorem generates_agree_iff (options : Options) (g : Graph) (calls : List Call)
    (r : UnitRequest) :
    ((after options g calls).Generates g r ↔ (start options g).Generates g r) ↔
      (Generable g (Index.build g) g.layout r →
        ((after options g calls).HasRoomFor g r ↔ (start options g).HasRoomFor g r)) := by
  rw [generates_iff (knows_after options g calls).ready,
    generates_iff (knows_start options g).ready, and_congr_right_iff]

end Backend

/-! ## Two requests of one stem

Quotation marks are dropped from symbols, so a node and its namesake in quotation marks share
the label of their units.
-/

namespace QuotedName

def source : Node := ⟨"\"N\"", .graphInput [⟨"result", .i32⟩], [], [⟨"result", .i32, none⟩]⟩

def sum : Node :=
  ⟨"N", .math .add .i32, [⟨"a", .i32, some (.i32 0)⟩, ⟨"b", .i32, some (.i32 0)⟩],
    [⟨"result", .i32, none⟩]⟩

def graph : Graph := ⟨"quoted name", [source, sum], [], none⟩

def request (n : Node) : UnitRequest := ⟨[⟨n.name, "result"⟩], []⟩

/-- The plan for the only output of a node that needs no other. -/
def plan (n : Node) : UnitPlan where
  version := graph.version
  outputs := [(⟨n.name, "result"⟩, .i32)]
  outputLayout := ⟨[⟨.i32, 0⟩], 4, 4⟩
  bindings := ⟨[]⟩
  inputLayout := ⟨[], 0, 1⟩
  order := [n]

theorem order_eq {n : Node} (h : n = source ∨ n = sum) :
    evaluationOrder graph (Index.build graph) [] [n.name] = .ok [n] := by
  have hedges : (Index.build graph).edges = [] := by decide +kernel
  have hnodes : (Index.build graph).nodes = ["\"N\"", "N"] := by decide +kernel
  simp only [evaluationOrder, scheduleRoots, Index.contains, hedges, Schedule.needs_nil, hnodes,
    ← Option.not_isSome]
  generalize graph.version = version
  rcases h with rfl | rfl
  · cbv
  · cbv

theorem plan_made {n : Node} (h : n = source ∨ n = sum) :
    UnitPlan.make graph (Index.build graph) graph.layout (request n) = .ok (plan n) := by
  refine UnitPlan.make_of_parts rfl (by simp [request]) ?_ ?_ rfl rfl (order_eq h)
  · rcases h with rfl | rfl
    · decide +kernel
    · decide +kernel
  · rcases h with rfl | rfl
    · decide
    · decide

/-- The sum is generated by a backend that has compiled the cells, but not once the source of
the same stem, which no code computes, has been asked for. -/
theorem not_generates_after_failure : source.name ≠ sum.name ∧
    (request source).stem = (request sum).stem ∧
    (Backend.start {} graph).Generates graph (request sum) ∧
    ¬ (Backend.after {} graph [.generate (request source)]).Generates graph (request sum) := by
  have hsource := plan_made (.inl rfl : source = source ∨ source = sum)
  have hsum := plan_made (.inr rfl : sum = source ∨ sum = sum)
  refine ⟨by decide, by decide +kernel, ?_, ?_⟩
  · rw [Backend.generates_iff_isOk]
    simp only [Backend.generate, generateUnit, hsum]
    decide +kernel
  · rw [Backend.generates_iff_isOk]
    simp only [Backend.after, List.foldl, Backend.step, Backend.generate, generateUnit, hsource,
      hsum]
    decide +kernel

end QuotedName

end Dataflow
