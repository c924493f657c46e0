import Dataflow.Proofs.Backend.Independence
import Dataflow.Proofs.Unit.Accepted
import Dataflow.Proofs.Unit.Orders
import Dataflow.Proofs.Unit.Outcome

/-!
# Which requests a new backend accepts

A backend that has compiled the cells of a graph and nothing else generates a unit exactly for
the requests that the graph accepts and that need no cycle: `Backend.generates_iff_accepts`. A
request that only a cycle stands against ends with a data cycle through a node of that cycle. The
order in which the dependencies are listed decides at most which node that is.
-/

namespace Dataflow

open Ir Generation Relation

variable {g : Graph} {r : UnitRequest} {t t' : SymbolTable} {sequence : Nat} {plan : UnitPlan}

/-! ## Computed nodes -/

/-- Nodes whose functions were generated have code, and their functions are found by name. -/
theorem emits_of_generateNodes {label : String} {taken : List String} {nodes : List Node}
    {functions : List (String × Function)}
    (h : (generateNodes (nodeSymbols label taken nodes)).run t = (.ok functions, t')) :
    ∀ n ∈ nodes, n.Emits ∧ ∃ f, functions.lookup n.name = some f := by
  obtain ⟨hkeys, hcode⟩ := admittedBy_of_generateNodes (nodeSymbols_apart label taken nodes).1 h
  intro n hn
  rw [← map_fst_nodeSymbols label taken nodes] at hn
  obtain ⟨entry, hmem, rfl⟩ := List.mem_map.1 hn
  refine ⟨Node.exists_isFunction_iff.1 (hcode entry hmem).1, ?_⟩
  have hkey : entry.1.name ∈ functions.map Prod.fst :=
    hkeys ▸ List.mem_map_of_mem (f := fun entry => entry.1.name) hmem
  obtain ⟨pair, hpair, hname⟩ := List.mem_map.1 hkey
  rw [← Option.isSome_iff_exists, List.lookup_isSome_iff]
  exact ⟨pair, hpair, by simp [hname]⟩

/-! ## Units -/

theorem accepts_of_generateUnit (hg : g.WellFormed) {unit : GeneratedUnit}
    (h : (generateUnit g (Index.build g) g.layout r sequence).run t = (.ok unit, t')) :
    g.Accepts r := by
  obtain ⟨plan, nodes, entry, t₁, hplan, hnodes, -, -⟩ := generateUnit_eq_ok h
  have hparts := UnitPlan.make_eq_ok_iff.1 hplan
  rw [hparts.accepts_iff hg]
  exact fun n hn => (emits_of_generateNodes hnodes n hn).1

/-- Once the functions of the computed nodes are there, so is all that the entry function is made
from. -/
theorem EntryContext.prepared_of_generateNodes (hg : g.WellFormed) (hparts : plan.Parts g r)
    (hemits : ∀ n ∈ plan.called, n.Emits) {label : String} {taken : List String}
    {nodes : List (String × Function)}
    (h : (generateNodes (nodeSymbols label taken plan.called)).run t = (.ok nodes, t')) :
    EntryContext.Prepared ⟨Index.build g, g.layout, plan, nodes⟩ g r := by
  exact ⟨hg, rfl, rfl, hparts, hemits, fun n hn => (emits_of_generateNodes h n hn).2⟩

/-- What becomes of an accepted request over a table that admits the functions of its unit. -/
theorem generateUnit_outcome (hg : g.WellFormed) (haccepts : g.Accepts r)
    (ht : t.Ready g.layout)
    (hadmits : ∀ name params, IsUnitFunction g (Index.build g) g.layout r sequence name params →
      t.Admits name params) :
    (∃ unit t', (generateUnit g (Index.build g) g.layout r sequence).run t = (.ok unit, t') ∧
      g.Acyclic r) ∨
    (∃ name t', (generateUnit g (Index.build g) g.layout r sequence).run t =
        (.error (.dataCycle name g.version), t') ∧
      g.Needs r name ∧ TransGen (g.Reads r) name name) := by
  obtain ⟨plan, hparts⟩ := UnitPlan.exists_parts hg haccepts.toOffers
  have hplan := UnitPlan.make_eq_ok_iff.2 hparts
  have hemits := (hparts.accepts_iff hg).1 haccepts
  obtain ⟨hnodup, hfree⟩ := nodeSymbols_apart (unitLabel sequence r)
    [unitLabel sequence r ++ "::entry"] plan.called
  obtain ⟨nodes, t₁, hnodes⟩ := generateNodes_of_admittedBy hnodup fun entry hmem =>
    ⟨Node.exists_isFunction_iff.2 (hemits entry.1 (mem_of_mem_nodeSymbols hmem)),
      fun params hparams =>
        hadmits entry.2 params ⟨plan, hplan, Or.inl ⟨entry.1, hmem, hparams⟩⟩⟩
  have hprepared := EntryContext.prepared_of_generateNodes hg hparts hemits hnodes
  have hgrows := declares_generateNodes (nodeSymbols (unitLabel sequence r)
    [unitLabel sequence r ++ "::entry"] plan.called) t
  rw [hnodes] at hgrows
  have hentry : t₁.Admits (unitLabel sequence r ++ "::entry") EntryContext.entryParams := by
    refine (hadmits _ _ ⟨plan, hplan, Or.inr ⟨rfl, rfl⟩⟩).declares ?_ hgrows
    rintro params ⟨n, hn, -⟩
    exact hfree _ (List.mem_map_of_mem hn) (List.mem_singleton.2 rfl)
  rcases EntryContext.generate_outcome hprepared (ht.declares hgrows) hentry with
    ⟨f, t₂, hgenerate, hturns⟩ | ⟨before, name, after, t₂, hsplit, hgenerate, m, hm, hlate⟩
  · refine .inl ⟨_, t₂, (run_bind_of_ok (run_ofExcept_of_ok hplan t) _).trans
      ((run_bind_of_ok hnodes _).trans (run_bind_of_ok hgenerate _)), ?_⟩
    exact (hparts.inTurn_iff_acyclic hg).1 hturns
  · rw [← hparts.version]
    refine .inr ⟨name, t₂, (run_bind_of_ok (run_ofExcept_of_ok hplan t) _).trans
      ((run_bind_of_ok hnodes _).trans (run_bind_of_error hgenerate _)), ?_, ?_⟩
    · rw [← hparts.mem_order_iff hg, hsplit]
      simp
    · -- what it reads is not listed before it, so that reads it in turn
      have hturns := hparts.inTurn hg
      change plan.order.map Node.name = _ at hsplit
      rw [hsplit] at hturns
      rcases hturns.of_split m hm with hearlier | hback
      · exact absurd hearlier hlate
      · exact TransGen.head' hm hback

/-! ## Names of cells -/

/-- The symbol of a cell starts with the name of the node it belongs to. -/
theorem StorageLayout.exists_symbol_eq {cell : StorageCell} (h : cell ∈ g.layout.cells) :
    ∃ n ∈ g.nodes, ∃ rest, cell.symbol = Symbol.sanitize n.name ++ (" - " ++ rest) := by
  rcases mem_addCells h with hcell | ⟨n, p, hinput, -, -, -, taken, hsymbol⟩
  · contradiction
  · obtain ⟨m, hm, hinputs⟩ := List.mem_flatMap.1 hinput
    obtain ⟨q, -, hpair⟩ := List.mem_map.1 hinputs
    cases hpair
    obtain ⟨rest, hrest⟩ := Symbol.exists_unique_eq (Symbol.ofInput n.name p.identifier) taken
    refine ⟨n, (List.mem_filter.1 hm).1, Symbol.sanitize p.identifier ++ rest, ?_⟩
    rw [hsymbol, hrest, Symbol.ofInput]
    simp only [String.append_assoc]

/-- No symbol of a cell starts like the functions of a unit. -/
def StorageLayout.Unreserved (layout : StorageLayout) : Prop :=
  ∀ cell ∈ layout.cells, ∀ (sequence : Nat) (r : UnitRequest) (rest : String),
    cell.symbol ≠ unitLabel sequence r ++ "::" ++ rest

/-- A symbol could only do so if the name of a node starts like the label of a unit. -/
theorem Graph.unreserved_layout
    (hnames : ∀ n ∈ g.nodes, ¬ "nodejit".toList <+: (Symbol.sanitize n.name).toList) :
    g.layout.Unreserved := by
  intro cell hcell sequence r rest hlabel
  obtain ⟨n, hn, rest', hsymbol⟩ := StorageLayout.exists_symbol_eq hcell
  have hlists := congrArg String.toList (hsymbol.symm.trans hlabel)
  rw [String.append_assoc, toList_unitLabel, String.toList_append] at hlists
  rcases List.append_eq_append_iff.1 hlists with ⟨middle, hmiddle, hrest⟩ | ⟨middle, hmiddle, -⟩
  · -- the name is a beginning of the label, and the blank after it would belong to it
    cases middle with
    | nil => exact hnames n hn ⟨[], by simpa using hmiddle⟩
    | cons c middle =>
        have hblank : c = ' ' := by
          rw [String.toList_append] at hrest
          exact (List.cons.inj hrest).1.symm
        have hmem : ' ' ∈ "nodejit".toList := by
          rw [hmiddle, hblank]
          simp
        exact absurd hmem (by decide)
  · exact hnames n hn ⟨middle, hmiddle.symm⟩

theorem Graph.Alike.unreserved {hidden : String → Prop} {h : Graph} (hgh : g.Alike hidden h)
    (hcells : g.layout.Unreserved) : h.layout.Unreserved := by
  unfold StorageLayout.Unreserved
  rw [← hgh.cells_eq]
  exact hcells

namespace Backend

theorem not_unitFunction_of_cell {layout : StorageLayout} (hlayout : layout.Unreserved)
    {cell : StorageCell} (hcell : cell ∈ layout.cells) (params : List Ty) :
    ¬ UnitFunction g r sequence cell.symbol params := by
  intro hfunction
  obtain ⟨rest, hlabel⟩ := hfunction.label
  exact hlayout cell hcell sequence r rest hlabel

/-- What becomes of a request when the dependencies are listed in the order of the links. -/
theorem generate_start_outcome (hg : g.WellFormed) (hcells : g.layout.Unreserved)
    (options : Options) (r : UnitRequest) :
    ((∃ unit b, (start options g).generate g (Index.build g) g.layout r = (.ok unit, b)) ↔
        g.Accepts r ∧ g.Acyclic r) ∧
      (g.Accepts r → ¬ g.Acyclic r →
        ∃ name, ((start options g).generate g (Index.build g) g.layout r).1 =
            .error (.dataCycle name g.version) ∧
          g.Needs r name ∧ TransGen (g.Reads r) name name) := by
  have hknows := knows_start options g
  have hroom : (start options g).HasRoomFor g r :=
    hknows.hasRoomFor (fun cell hcell params => not_unitFunction_of_cell hcells hcell params)
      (fun q hq => by contradiction)
  have houtcome (haccepts : g.Accepts r) := generateUnit_outcome hg haccepts hknows.ready hroom
  refine ⟨?_, ?_⟩
  · rw [← Generates, generates_iff_run]
    constructor
    · rintro ⟨unit, t', hrun⟩
      have haccepts := accepts_of_generateUnit hg hrun
      rcases houtcome haccepts with ⟨_, _, -, hacyclic⟩ | ⟨name, t₁, herror, -⟩
      · exact ⟨haccepts, hacyclic⟩
      · rw [hrun] at herror
        cases herror
    · rintro ⟨haccepts, hacyclic⟩
      rcases houtcome haccepts with ⟨unit, t', hrun, -⟩ | ⟨name, _, -, hneeded, hcycle⟩
      · exact ⟨unit, t', hrun⟩
      · exact absurd hcycle (hacyclic name hneeded)
  · intro haccepts hcyclic
    rcases houtcome haccepts with ⟨_, _, -, hacyclic⟩ | ⟨name, t', hrun, hneeded, hcycle⟩
    · exact absurd hacyclic hcyclic
    · refine ⟨name, ?_, hneeded, hcycle⟩
      unfold generate
      simp only [hrun]

/-- A new backend has the cells of the graph and nothing else. -/
theorem start_congr {h : Graph} (hcells : h.layout.cells = g.layout.cells) (options : Options) :
    start options h = start options g := by
  unfold start compileGlobals
  rw [hcells]

/-- A backend that has compiled the cells of a graph generates a unit exactly for the requests
that the graph accepts and that need no cycle, in whatever order the dependencies are listed. What
else is accepted ends with a data cycle. -/
theorem generates_iff_accepts (hg : g.Reachable)
    (hnames : ∀ n ∈ g.nodes, ¬ "nodejit".toList <+: (Symbol.sanitize n.name).toList)
    {edges : List (String × String)} (hedges : edges.Perm (Index.build g).edges)
    (options : Options) (r : UnitRequest) :
    ((∃ unit b, (start options g).generate g ((Index.build g).listing edges) g.layout r =
        (.ok unit, b)) ↔ g.Accepts r ∧ g.Acyclic r) ∧
      (g.Accepts r → ¬ g.Acyclic r →
        ∃ name, ((start options g).generate g ((Index.build g).listing edges) g.layout r).1 =
            .error (.dataCycle name g.version) ∧
          g.Needs r name ∧ TransGen (g.Reads r) name name) := by
  obtain ⟨links, hlinks, hgenerate⟩ := Graph.exists_generate_listing hg hedges
  have halike := Graph.withLinks_alike hg hlinks
  have houtcome := generate_start_outcome halike.left
    (halike.symm.unreserved (Graph.unreserved_layout hnames)) options r
  have hnone : ∀ port ∈ r.outputs ++ r.graphInputs, ¬ False := fun _ _ => not_false
  rw [start_congr halike.cells_eq, halike.accepts_iff hnone, halike.acyclic_iff hnone,
    Graph.version_withLinks] at houtcome
  simp only [halike.needs_iff hnone, halike.reads_eq] at houtcome
  rw [hgenerate]
  exact houtcome

end Backend

/-! ## A sum that is added to itself

The sum reads its own result through a reroute. It can be requested all the same as long as its
value is supplied.
-/

namespace SelfSum

open RelayedSum (sum relay)

def result : PortRef := ⟨"sum", "result"⟩

def graph : Graph where
  name := "self sum"
  nodes := [sum, relay]
  links := [⟨⟨"relay", "input"⟩, result⟩, ⟨⟨"sum", "a"⟩, ⟨"relay", "output"⟩⟩]
  token := none

def request (supplied : List PortRef) : UnitRequest := ⟨[⟨"relay", "output"⟩], supplied⟩

theorem reachable : graph.Reachable := by
  have h₁ : Graph.Reachable ⟨"self sum", [sum], [], none⟩ :=
    .addNode (.empty _) (show (Graph.empty "self sum").addNode "sum" sum.kind =
      .ok (sum, _) from rfl)
  have h₂ : Graph.Reachable ⟨"self sum", [sum, relay], [], none⟩ :=
    .addNode h₁ (show Graph.addNode _ "relay" relay.kind = .ok (relay, _) from rfl)
  have h₃ := Graph.Reachable.link h₂
    (show Graph.link _ result ⟨"relay", "input"⟩ = .ok (none, _) from rfl)
  exact .link h₃ (show Graph.link _ ⟨"relay", "output"⟩ ⟨"sum", "a"⟩ = .ok (none, _) from rfl)

theorem emits : ∀ n ∈ graph.nodes, n.Emits := by
  intro n hn
  simp only [graph, List.mem_cons, List.not_mem_nil, or_false] at hn
  rcases hn with rfl | rfl
  · exact ⟨[.i32, .i32], [.i32], _, rfl, rfl, rfl, rfl⟩
  · exact ⟨[.i32], [.i32], _, rfl, rfl, rfl, rfl⟩

theorem leadsTo_result : graph.LeadsTo ⟨"relay", "output"⟩ result :=
  ⟨1, .up (by decide) rfl (.here (by decide))⟩

theorem hasNativeOutput_result : graph.HasNativeOutput result :=
  ⟨.i32, ⟨⟨"result", .i32, none⟩, rfl, rfl⟩, by decide⟩

theorem accepts {supplied : List PortRef} (h : ∀ port ∈ supplied, port = result) :
    graph.Accepts (request supplied) := by
  refine ⟨⟨by simp [request], ?_, ?_, ?_⟩, fun n hn _ _ => emits n hn⟩
  · intro port hport
    rw [List.mem_singleton.1 hport]
    exact ⟨⟨.i32, ⟨⟨"output", .i32, none⟩, rfl, rfl⟩, by decide⟩, result, leadsTo_result⟩
  · intro port hport
    rw [h port hport]
    exact ⟨hasNativeOutput_result, by decide⟩
  · rintro n hn ⟨port, hport, hname⟩ p hp
    obtain rfl := h port hport
    simp only [graph, List.mem_cons, List.not_mem_nil, or_false] at hn
    rcases hn with rfl | rfl
    · rw [List.mem_singleton.1 hp]
      exact hport
    · contradiction

/-- Only the sum reads anything. -/
theorem eq_sum_of_reads {r : UnitRequest} {a b : String} (h : graph.Reads r a b) : a = "sum" := by
  obtain ⟨-, target, source, ⟨hreroute, origin, horigin, -⟩, rfl, -⟩ := h
  obtain ⟨l, hl, rfl, -⟩ := Graph.linkOrigin?_eq_some horigin
  simp only [graph, List.mem_cons, List.not_mem_nil, or_false] at hl
  rcases hl with rfl | rfl
  · exact absurd (by decide) hreroute
  · rfl

theorem not_acyclic : ¬ graph.Acyclic (request []) := by
  intro hacyclic
  refine hacyclic "sum" ⟨_, List.mem_singleton.2 rfl, result, leadsTo_result, .refl⟩ (.single ?_)
  exact ⟨by simp [UnitRequest.Binds, request], ⟨"sum", "a"⟩, result,
    ⟨by decide, ⟨"relay", "output"⟩, rfl, leadsTo_result⟩, rfl, rfl⟩

theorem acyclic_supplied : graph.Acyclic (request [result]) := by
  intro name _ hcycle
  obtain ⟨_, hreads, -⟩ := TransGen.head'_iff.1 hcycle
  have hname := eq_sum_of_reads hreads
  exact hreads.1 ⟨result, List.mem_singleton.2 rfl, hname.symm⟩

theorem generates_iff_accepts_selfSum : graph.Reachable ∧
    (∀ n ∈ graph.nodes, ¬ "nodejit".toList <+: (Symbol.sanitize n.name).toList) ∧
    (Backend.start {} graph).Generates graph (request [result]) ∧
    ¬ (Backend.start {} graph).Generates graph (request []) ∧
    ((Backend.start {} graph).generate graph (Index.build graph) graph.layout (request [])).1 =
      .error (.dataCycle "sum" graph.version) := by
  have hnames : ∀ n ∈ graph.nodes,
      ¬ "nodejit".toList <+: (Symbol.sanitize n.name).toList := by decide
  obtain ⟨hsupplied, -⟩ := Backend.generates_iff_accepts reachable hnames (.refl _) {}
    (request [result])
  obtain ⟨hcomputed, herror⟩ := Backend.generates_iff_accepts reachable hnames (.refl _) {}
    (request [])
  obtain ⟨name, hrun, -, hcycle⟩ := herror (accepts (by simp)) not_acyclic
  obtain ⟨_, hreads, -⟩ := TransGen.head'_iff.1 hcycle
  rw [eq_sum_of_reads hreads] at hrun
  exact ⟨reachable, hnames, hsupplied.2 ⟨accepts (by simp), acyclic_supplied⟩,
    fun h => not_acyclic (hcomputed.1 h).2, hrun⟩

end SelfSum

end Dataflow
