import Dataflow.Proofs.Backend.Definitions
import Dataflow.Proofs.Unit.EntryFunction
import Dataflow.Proofs.Unit.Orders
import Dataflow.Proofs.Unit.Planning
import Dataflow.Proofs.Unit.StockKinds

/-!
# Compiled units compute the values of the outputs they were requested for

`CompiledUnit.execute_outcome`: executing a unit fills its output record with the words that the
requested outputs carry, unless one of the called functions traps.
`CompiledUnit.invoke_yields`: whatever a unit was compiled for, and in whatever order the index
lists the dependencies, running it on supplied values and the contents of its cells ends with the
value that the graph gives to each requested output.
-/

namespace Dataflow

open Ir

/-- What a generated unit was made from. -/
theorem generateUnit_eq_ok {g : Graph} {ix : Index} {storage : StorageLayout} {r : UnitRequest}
    {sequence : Nat} {t t' : SymbolTable} {unit : GeneratedUnit}
    (h : (generateUnit g ix storage r sequence).run t = (.ok unit, t')) :
    ∃ plan nodes entry t₁, UnitPlan.make g ix storage r = .ok plan ∧
      (generateNodes (nodeSymbols (unitLabel sequence r) [unitLabel sequence r ++ "::entry"]
        plan.called)).run t = (.ok nodes, t₁) ∧
      (EntryContext.generate ⟨ix, storage, plan, nodes⟩
        (unitLabel sequence r ++ "::entry")).run t₁ = (.ok entry, t') ∧
      unit = {
        version := plan.version
        request := r
        label := unitLabel sequence r
        functions := nodes.map Prod.snd ++ [entry]
        entry := entry.id
        nodeOrder := plan.called.map Node.name
        inputLayout := plan.inputLayout
        outputLayout := plan.outputLayout } := by
  obtain ⟨plan, t₁, hrun, h₁⟩ := Generation.run_bind_eq_ok h
  obtain ⟨hplan, rfl⟩ := Generation.run_ofExcept_eq_ok hrun
  obtain ⟨nodes, t₂, hnodes, h₂⟩ := Generation.run_bind_eq_ok h₁
  obtain ⟨entry, t₃, hentry, h₃⟩ := Generation.run_bind_eq_ok h₂
  obtain ⟨rfl, rfl⟩ := Generation.run_pure_eq_ok h₃
  exact ⟨plan, nodes, entry, t₂, hplan, hnodes, hentry, rfl⟩

theorem Backend.generate_eq_ok {b b' : Backend} {g : Graph} {ix : Index}
    {storage : StorageLayout} {r : UnitRequest} {unit : GeneratedUnit}
    (h : b.generate g ix storage r = (.ok unit, b')) :
    (generateUnit g ix storage r (b.sequence + 1)).run b.table = (.ok unit, b'.table) ∧
      b' = { b with table := b'.table, sequence := b.sequence + 1 } := by
  unfold Backend.generate at h
  simp only at h
  split at h
  · rename_i u table hrun
    cases h
    exact ⟨hrun, rfl⟩
  · cases h

/-- The words of the requested outputs, read in the types of the outputs, are the values that
the graph yields. -/
theorem yields_of_words {g : Graph} {supplied : List (PortRef × Value)} {cells : PortRef → Value}
    {ports : List PortRef} {outputs : List TypedPort} {words : List Word} {values : List Value}
    (hports : List.Forall₂ g.Resolves ports outputs)
    (hwords : List.Forall₂ (fun (typed : TypedPort) w => g.HasScalar supplied cells typed.1 w)
      outputs words)
    (hvalues : List.Forall₂ (fun (x : TypedPort × Word) v => Value.ofWord? x.1.2 x.2 = some v)
      (outputs.zip words) values) :
    List.Forall₂ (g.Yields supplied cells) ports values := by
  induction hports generalizing words values with
  | nil =>
      cases hwords
      cases hvalues
      exact .nil
  | cons hport _ ih =>
      cases hwords with
      | cons hword hwords =>
          cases hvalues with
          | cons hvalue hvalues =>
              refine .cons ?_ (ih hwords hvalues)
              obtain ⟨⟨p, hp, hty⟩, -, hsource⟩ := hport
              exact ⟨_, p, _, hsource, hp, hword.1, hty ▸ hvalue⟩

/-- The words of the requested outputs have the types of the outputs. -/
theorem suits_of_words {g : Graph} (hg : g.WellFormed) (hreroutes : g.ReroutesTyped)
    {supplied : List (PortRef × Value)} {cells : PortRef → Value} {ports : List PortRef}
    {outputs : List TypedPort} {words : List Word}
    (hports : List.Forall₂ g.Resolves ports outputs)
    (hwords : List.Forall₂ (fun (typed : TypedPort) w => g.HasScalar supplied cells typed.1 w)
      outputs words) : List.Forall₂ CompiledUnit.Suits outputs words := by
  induction hports generalizing words with
  | nil =>
      cases hwords
      exact .nil
  | cons hport _ ih =>
      cases hwords with
      | cons hword hwords =>
          refine .cons ?_ (ih hwords)
          obtain ⟨hty, -, hsource⟩ := hport
          obtain ⟨-, ty, native, hty', hnative, hscalar⟩ := hword
          have hsame := (Graph.hasOutput_resolveFrom? hg hreroutes hty hsource).unique hty'
          exact ⟨native, hsame ▸ hnative, hscalar⟩

/-- The run of a unit's entry function on supplied values and a bank of cells. -/
def UnitPlan.entryRun (plan : UnitPlan) (functions : List Function) (entry : Function)
    (bank : Bank) (values : List Value) (means : PortRef → Word → Prop) : EntryRun where
  function := entry
  calls := callsAmong functions
  memory := {
    input := UnitPlan.Serves.inputRecord plan values
    output := plan.outputLayout.allocate
    slots := entry.slots.map fun size => List.replicate size 0
    cells := bank }
  means := means

theorem callsAmong_of_mem {functions : List Function} (h : (functions.map Function.id).Nodup)
    {f : Function} (hf : f ∈ functions) (args : List Word) (m : Memory) :
    callsAmong functions f.id args m = f.runLeaf args m := by
  unfold callsAmong
  rw [find?_id h hf]

theorem mem_nodeSymbols {label : String} {taken : List String} {nodes : List Node} {n : Node}
    (h : n ∈ nodes) : ∃ name, (n, name) ∈ nodeSymbols label taken nodes := by
  induction nodes generalizing taken with
  | nil => contradiction
  | cons first nodes ih =>
      unfold nodeSymbols
      rcases List.mem_cons.1 h with rfl | h
      · exact ⟨_, List.mem_cons_self⟩
      · obtain ⟨name, hname⟩ := ih h
        exact ⟨name, List.mem_cons_of_mem _ hname⟩

theorem exists_function_of_generateNodes {symbols : List (Node × String)}
    {functions : List (String × Function)} {t t' : SymbolTable}
    (h : (generateNodes symbols).run t = (.ok functions, t')) {n : Node} {name : String}
    (hn : (n, name) ∈ symbols) : ∃ f ∈ functions.map Prod.snd, n.IsFunction f := by
  induction symbols generalizing functions t t' with
  | nil => contradiction
  | cons entry symbols ih =>
      obtain ⟨first, t₁, hfirst, h₁⟩ := Generation.run_bind_eq_ok h
      obtain ⟨rest, t₂, hrest, h₂⟩ := Generation.run_bind_eq_ok h₁
      obtain ⟨rfl, -⟩ := Generation.run_pure_eq_ok h₂
      rcases List.mem_cons.1 hn with rfl | hn
      · obtain ⟨id, inputs, outputs, hinputs, houtputs, -, hfunction⟩ :=
          Node.generate_eq_ok hfirst
        exact ⟨first, List.mem_cons_self, id, name, inputs, outputs, hinputs, houtputs, hfunction⟩
      · obtain ⟨f, hf, hfunction⟩ := ih hrest hn
        exact ⟨f, List.mem_cons_of_mem _ hf, hfunction⟩

theorem UnitPlan.Serves.exists_isFunction {g : Graph} {r : UnitRequest} {plan : UnitPlan}
    (hplan : plan.Serves g r) {label : String} {taken : List String}
    {nodes : List (String × Function)} {t t' : SymbolTable}
    (hnodes : (generateNodes (nodeSymbols label taken plan.called)).run t = (.ok nodes, t'))
    {name : String} {f : Function} (hf : (name, f) ∈ nodes) :
    ∃ n ∈ g.nodes, n.name = name ∧ n.IsFunction f := by
  obtain ⟨n, symbol, hsymbol, hname, hfunction⟩ := isFunction_of_mem_generateNodes hnodes hf
  have hcalled : n ∈ plan.called := mem_of_mem_nodeSymbols hsymbol
  exact ⟨n, hplan.order n (List.mem_filter.1 hcalled).1, hname, hfunction⟩

theorem entryRun_hosts {g : Graph} (hg : g.WellFormed)
    {r : UnitRequest} {plan : UnitPlan} (hplan : plan.Serves g r) {label : String}
    {taken : List String} {nodes : List (String × Function)} {t t' : SymbolTable}
    (hnodes : (generateNodes (nodeSymbols label taken plan.called)).run t = (.ok nodes, t'))
    {entry : Function} (hnodup : ((nodes.map Prod.snd ++ [entry]).map Function.id).Nodup)
    {bank : Bank} {cells : PortRef → Value}
    (hcells : (StorageLayout.build g (Index.build g)).Holds bank cells) {values : List Value}
    (hvalues : List.Forall₂ (fun port v => g.HasOutput port v.dataType) r.graphInputs values) :
    EntryContext.Hosts ⟨Index.build g, StorageLayout.build g (Index.build g), plan, nodes⟩
      (plan.entryRun (nodes.map Prod.snd ++ [entry]) entry bank values
        (g.Carries (r.graphInputs.zip values) cells)) g r values cells where
  wellFormed := hg
  index_eq := rfl
  storage_eq := rfl
  plan := hplan
  supplied := hvalues
  input_eq := rfl
  cells_hold := hcells
  slots_eq := rfl
  functions := by
    intro name f hf
    have hmem : f ∈ nodes.map Prod.snd := List.mem_map.2 ⟨(name, f), hf, rfl⟩
    exact ⟨hplan.exists_isFunction hnodes hf,
      callsAmong_of_mem hnodup (List.mem_append_left _ hmem)⟩
  means_eq := rfl

namespace CompiledUnit

theorem writeInputs_of_serves {u : CompiledUnit} {g : Graph} {plan : UnitPlan}
    (hplan : plan.Serves g u.request) (hinput : u.inputLayout = plan.inputLayout)
    {values : List Value}
    (hvalues : List.Forall₂ (fun port v => g.HasOutput port v.dataType) u.request.graphInputs
      values) :
    writeInputs u.inputLayout u.inputLayout.allocate 0 values u.request.graphInputs =
      .ok (UnitPlan.Serves.inputRecord plan values) := by
  rw [hinput]
  exact writeInputs_eq_fill hvalues.length_eq (hplan.values_types hvalues)

/-- Executing a unit is running its entry function. -/
theorem execute_eq_run {u : CompiledUnit} (plan : UnitPlan)
    (houtput : u.outputLayout = plan.outputLayout) {entry : Function}
    (hentry : u.functions.find? (fun f => f.id == u.entry) = some entry) (bank : Bank)
    (values : List Value) (means : PortRef → Word → Prop) :
    u.execute bank (UnitPlan.Serves.inputRecord plan values) =
      ((entry.run (callsAmong u.functions) [.address .input, .address .output]
        (plan.entryRun u.functions entry bank values means).memory).map Memory.output).mapError
          .trapped := by
  unfold execute
  rw [hentry]
  simp only [Function.runEntry, houtput]
  rfl

end CompiledUnit

namespace Graph.Alike

variable {hidden : String → Prop} {g h : Graph} (hgh : g.Alike hidden h)
  {supplied : List (PortRef × Value)} {cells : PortRef → Value} {n : Node}

include hgh

theorem holds {bank : Bank} (hcells : g.layout.Holds bank cells) : h.layout.Holds bank cells := by
  unfold StorageLayout.Holds
  rw [← hgh.cells_eq]
  exact hcells

/-- Values of inputs are the same in alike graphs. -/
theorem inputHas {p : Port} {w : Word} (hw : EntryContext.InputHas g supplied cells n p w) :
    EntryContext.InputHas h supplied cells n p w := by
  obtain ⟨horigin, hcell, hscalar⟩ := hw
  refine ⟨fun origin hresolve => ?_, fun hnone => hcell (hgh.resolve?_eq _ ▸ hnone), hscalar⟩
  rw [← hgh.resolve?_eq] at hresolve
  exact hgh.hasValueBy (horigin origin hresolve) (hgh.not_hidden_of_resolve? hresolve)

/-- So computations end in both. -/
theorem ends (hends : g.Ends supplied cells n) : h.Ends supplied cells n :=
  fun args hargs => hends args (hargs.imp fun _ _ => hgh.symm.inputHas)

end Graph.Alike

/-- The unit was made by this plan. -/
structure GeneratedUnit.Follows (unit : GeneratedUnit) (plan : UnitPlan) (g : Graph)
    (r : UnitRequest) : Prop where
  parts : plan.Parts g r
  request : unit.request = r
  inputLayout : unit.inputLayout = plan.inputLayout
  outputLayout : unit.outputLayout = plan.outputLayout
  nodeOrder : unit.nodeOrder = plan.called.map Node.name
  functions : ∀ n ∈ plan.called, ∃ f ∈ unit.functions, n.IsFunction f

/-- Generated units follow the plan of their request. -/
theorem exists_follows {g : Graph} {r : UnitRequest} {storage : StorageLayout} {sequence : Nat}
    {t t' : SymbolTable} {unit : GeneratedUnit}
    (hunit : (generateUnit g (Index.build g) storage r sequence).run t = (.ok unit, t')) :
    ∃ plan, unit.Follows plan g r := by
  obtain ⟨plan, nodes, entry, t₁, hmake, hnodes, -, rfl⟩ := generateUnit_eq_ok hunit
  refine ⟨plan, UnitPlan.parts_of_make hmake, rfl, rfl, rfl, rfl, ?_⟩
  intro n hn
  obtain ⟨name, hname⟩ := mem_nodeSymbols hn
  obtain ⟨f, hf, hfunction⟩ := exists_function_of_generateNodes hnodes hname
  exact ⟨f, List.mem_append_left _ hf, hfunction⟩

theorem mem_nodeOrder_iff {g : Graph} (hg : g.WellFormed) {r : UnitRequest}
    {storage : StorageLayout} {sequence : Nat} {t t' : SymbolTable} {unit : GeneratedUnit}
    (hunit : (generateUnit g (Index.build g) storage r sequence).run t = (.ok unit, t'))
    {n : Node} (hn : n ∈ g.nodes) :
    n.name ∈ unit.nodeOrder ↔ g.Needs r n.name ∧ ¬ r.Binds n.name := by
  obtain ⟨plan, hfollows⟩ := exists_follows hunit
  have hcalled := fun m => hfollows.parts.mem_called_iff (n := m) hg
  rw [hfollows.nodeOrder]
  constructor
  · intro hname
    obtain ⟨m, hm, hsame⟩ := List.mem_map.1 hname
    obtain rfl := Graph.eq_of_name_eq hg.names_nodup ((hcalled m).1 hm).1 hn hsame
    exact ((hcalled m).1 hm).2
  · intro hneeds
    exact List.mem_map_of_mem ((hcalled n).2 ⟨hn, hneeds⟩)

namespace CompiledUnit

/-- Executing a unit fills its output record with the words of the requested outputs, unless one
of the functions it calls traps. -/
theorem execute_outcome {g : Graph} (hg : g.WellFormed) {r : UnitRequest} {sequence : Nat}
    {t t' : SymbolTable} {unit : GeneratedUnit}
    (hunit : (generateUnit g (Index.build g) (StorageLayout.build g (Index.build g)) r
      sequence).run t = (.ok unit, t'))
    (hnodup : (unit.functions.map Function.id).Nodup) {plan : UnitPlan}
    (hfollows : unit.Follows plan g r) {bank : Bank} {cells : PortRef → Value}
    (hcells : (StorageLayout.build g (Index.build g)).Holds bank cells) {values : List Value}
    (hvalues : List.Forall₂ (fun port v => g.HasOutput port v.dataType) r.graphInputs values)
    (number : Nat) :
    ((∀ n ∈ plan.called, g.Proceeds (r.graphInputs.zip values) cells n) ∧
      ∃ words, List.Forall₂ (fun (typed : TypedPort) w =>
          g.Carries (r.graphInputs.zip values) cells typed.1 w) plan.outputs words ∧
        (ofGenerated unit number).execute bank (UnitPlan.Serves.inputRecord plan values) =
          .ok (plan.outputLayout.fill plan.outputLayout.allocate 0 (words.map Word.image))) ∨
    (∃ n ∈ plan.called, g.Sticks (r.graphInputs.zip values) cells n) ∧
      ∃ err, (ofGenerated unit number).execute bank (UnitPlan.Serves.inputRecord plan values) =
        .error err := by
  obtain ⟨plan', nodes, entry, t₁, hmake, hnodes, hentry, rfl⟩ := generateUnit_eq_ok hunit
  have hparts := hfollows.parts
  obtain rfl : plan = plan' :=
    Except.ok.inj ((UnitPlan.make_eq_ok_iff.2 hparts).symm.trans hmake)
  have hhosts := entryRun_hosts hg hparts.serves hnodes hnodup hcells hvalues
  have hfind := find?_id hnodup (List.mem_append_right _ (List.mem_singleton.2 rfl))
  rw [execute_eq_run plan rfl hfind bank values (g.Carries (r.graphInputs.zip values) cells)]
  rcases EntryContext.generate_runs hhosts hentry with
    ⟨hproceeds, words, m, hwords, hrun, hrecord⟩ | ⟨hsticks, trap, hrun⟩
  · refine .inl ⟨hproceeds, words, hwords, ?_⟩
    exact (congrArg (fun result => (result.map Memory.output).mapError UnitError.trapped)
      hrun).trans (congrArg Except.ok hrecord)
  · exact .inr ⟨hsticks, _,
      congrArg (fun result => (result.map Memory.output).mapError UnitError.trapped) hrun⟩

/-- A unit whose output record is filled with the words of the outputs. -/
theorem invoke_of_execute {unit : GeneratedUnit} {g : Graph} {r : UnitRequest} {plan : UnitPlan}
    (hunit : unit.Follows plan g r) {bank : Bank} {values : List Value}
    (hvalues : List.Forall₂ (fun port v => g.HasOutput port v.dataType) r.graphInputs values)
    {number : Nat} {result : Except UnitError Bytes}
    (hexecute : (ofGenerated unit number).execute bank (UnitPlan.Serves.inputRecord plan values) =
      result) :
    (ofGenerated unit number).invoke bank values =
      result >>= fun output => (ofGenerated unit number).readOutputs output 0 r.outputs := by
  obtain ⟨hparts, rfl, hinput, -, -, -⟩ := hunit
  have hlength : values.length = (ofGenerated unit number).inputLayout.count := by
    have h := congrArg List.length (hparts.serves.values_types hvalues)
    rw [List.length_map, List.length_map] at h
    rw [h, show (ofGenerated unit number).inputLayout = plan.inputLayout from hinput]
    rfl
  unfold invoke
  rw [if_neg (not_not.2 hlength)]
  change (writeInputs _ _ _ _ _ >>= _) = _
  rw [writeInputs_of_serves hparts.serves hinput hvalues]
  change ((ofGenerated unit number).execute bank _ >>= _) = _
  rw [hexecute]
  rfl

section

variable {g : Graph} (hg : g.WellFormed) {r : UnitRequest} {bank : Bank} {cells : PortRef → Value}
  (hcells : (StorageLayout.build g (Index.build g)).Holds bank cells) {values : List Value}
  (hvalues : List.Forall₂ (fun port v => g.HasOutput port v.dataType) r.graphInputs values)

include hg hcells hvalues

/-- The nodes that a request needs are sound if those that are called for it are checked and fed
with words of the right types. -/
theorem soundAmong_of_called {plan : UnitPlan} (hplan : plan.Parts g r)
    (hchecked : ∀ n ∈ plan.called, n.Checked) (hfed : ∀ n ∈ plan.called, g.Fed n) :
    g.SoundAmong (r.graphInputs.zip values) cells (g.Needs r) := by
  have hcalled : ∀ n ∈ g.nodes, g.Needs r n.name →
      (∀ s ∈ r.graphInputs.zip values, s.1.node ≠ n.name) →
        n ∈ plan.called ∧ ¬ r.Binds n.name := by
    intro n hn hneeds hfree
    have hunbound : ¬ r.Binds n.name := by
      rintro ⟨port, hport, hname⟩
      rw [← List.map_fst_zip (Nat.le_of_eq hvalues.length_eq)] at hport
      obtain ⟨s, hs, rfl⟩ := List.mem_map.1 hport
      exact hfree s hs hname
    exact ⟨(hplan.mem_called_iff hg).2 ⟨hn, hneeds, hunbound⟩, hunbound⟩
  refine {
    checked := fun n hn hneeds hfree => hchecked n (hcalled n hn hneeds hfree).1
    fed := fun n hn hneeds hfree => hfed n (hcalled n hn hneeds hfree).1
    closed := ?_
    suppliedTyped := fun s hs => (List.forall₂_iff_zip.1 hvalues).2 hs
    cellsTyped := ?_ }
  · intro n hn hneeds hfree p hp origin horigin
    exact hneeds.reads ⟨(hcalled n hn hneeds hfree).2, n.portRef p, origin,
      Graph.resolve?_eq_some_iff.1 horigin, rfl, rfl⟩
  · intro n hn hneeds hfree p hp horigin
    obtain ⟨f, ⟨-, -, inputs, -, hinputs, -⟩, -⟩ := hchecked n (hcalled n hn hneeds hfree).1
    obtain ⟨native, hnative⟩ := Node.exists_native_of_portTypes hinputs hp
    have hreroute : n.isReroute = false := by
      rw [Bool.eq_false_iff]
      exact fun h => hneeds.not_mem_rerouteNames (Graph.name_mem_rerouteNames hn h)
    obtain ⟨cell, hcell⟩ := StorageLayout.exists_cell hn hreroute hp
      ((Index.dataOrigin?_build g _).trans horigin) (DataType.exists_native_iff.1 ⟨native, hnative⟩)
    obtain ⟨hmem, hport⟩ := StorageLayout.mem_of_cell? hcell
    obtain ⟨-, htype⟩ := hcells cell hmem
    rw [hport] at htype
    exact htype.trans (StorageLayout.dataType_of_cell?_build hg hn hp hcell)

variable (hreroutes : g.ReroutesTyped) {sequence : Nat} {t t' : SymbolTable}
  {unit : GeneratedUnit}
  (hunit : (generateUnit g (Index.build g) (StorageLayout.build g (Index.build g)) r
    sequence).run t = (.ok unit, t'))
  {b b' : Backend} (hcompile : b.compileUnit unit = (.ok (), b'))

include hreroutes hunit hcompile

/-- The nodes needed for a unit that was compiled are sound, if nodes of host kinds emit checked
code where nothing verifies it. -/
theorem soundAmong_of_compiled
    (hhost : b.verify = false → ∀ n ∈ g.nodes, n.name ∈ unit.nodeOrder → ∀ k, n.kind = .host k →
      n.EmitsChecked) :
    g.SoundAmong (r.graphInputs.zip values) cells (g.Needs r) := by
  obtain ⟨-, hverified, -⟩ := Backend.compileUnit_eq_ok hcompile
  obtain ⟨plan, hfollows⟩ := exists_follows hunit
  have hmem : ∀ n ∈ plan.called, n ∈ g.nodes := fun n hn =>
    ((hfollows.parts.mem_called_iff hg).1 hn).1
  refine soundAmong_of_called hg hcells hvalues hfollows.parts ?_ fun n hn =>
    hreroutes.fed hg (hmem n hn)
  intro n hn
  obtain ⟨f, hf, hfunction⟩ := hfollows.functions n hn
  refine ⟨f, hfunction, ?_⟩
  cases hverify : b.verify with
  | true => exact hverified hverify f hf
  | false => exact (hg.nodes_wellFormed n (hmem n hn)).emitsChecked (hhost hverify n (hmem n hn)
      (hfollows.nodeOrder ▸ List.mem_map_of_mem hn)) f hfunction

/-- If a unit has returned, the nodes that it calls have results on the values of their inputs. -/
theorem evaluates_of_invoke
    (hhost : b.verify = false → ∀ n ∈ g.nodes, n.name ∈ unit.nodeOrder → ∀ k, n.kind = .host k →
      n.EmitsChecked) {number : Nat} {vs : List Value}
    (hinvoke : (ofGenerated unit number).invoke bank values = .ok vs) {n : Node}
    (hn : n ∈ g.nodes) (hname : n.name ∈ unit.nodeOrder) :
    g.Evaluates (r.graphInputs.zip values) cells n := by
  obtain ⟨hnodup, -, -⟩ := Backend.compileUnit_eq_ok hcompile
  obtain ⟨plan, hfollows⟩ := exists_follows hunit
  obtain ⟨hneeds, hunbound⟩ := (mem_nodeOrder_iff hg hunit hn).1 hname
  have hsound := soundAmong_of_compiled hg hcells hvalues hreroutes hunit hcompile hhost
  rcases execute_outcome hg hunit hnodup hfollows hcells hvalues number with
    ⟨hproceeds, -⟩ | ⟨-, err, hexecute⟩
  · refine hsound.evaluates hn hneeds (fun s hs hsame => hunbound ?_) (hproceeds n ?_)
    · exact ⟨s.1, (List.of_mem_zip hs).1, hsame⟩
    · exact (hfollows.parts.mem_called_iff hg).2 ⟨hn, hneeds, hunbound⟩
  · rw [invoke_of_execute hfollows hvalues hexecute] at hinvoke
    contradiction

/-- Executing a unit whose host kinds keep their contract fills its output record with the values
of the requested outputs. -/
theorem exists_execute
    (hhost : ∀ n ∈ g.nodes, n.name ∈ unit.nodeOrder → ∀ k, n.kind = .host k →
      g.KeepsContract (r.graphInputs.zip values) cells n b.verify) (number : Nat) :
    ∃ plan words, unit.Follows plan g r ∧
      List.Forall₂ (fun (typed : TypedPort) w =>
        g.HasScalar (r.graphInputs.zip values) cells typed.1 w) plan.outputs words ∧
      (ofGenerated unit number).execute bank (UnitPlan.Serves.inputRecord plan values) =
        .ok (plan.outputLayout.fill plan.outputLayout.allocate 0 (words.map Word.image)) := by
  obtain ⟨hnodup, -, -⟩ := Backend.compileUnit_eq_ok hcompile
  obtain ⟨plan, hfollows⟩ := exists_follows hunit
  have hsound := soundAmong_of_compiled hg hcells hvalues hreroutes hunit hcompile
    fun hverify n hn hname k hk => (hhost n hn hname k hk).checked hverify
  rcases execute_outcome hg hunit hnodup hfollows hcells hvalues number with
    ⟨-, words, hwords, hexecute⟩ | ⟨⟨n, hn, hsticks⟩, -⟩
  · refine ⟨plan, words, hfollows, ?_, hexecute⟩
    rw [List.forall₂_iff_zip] at hwords ⊢
    refine ⟨hwords.1, fun {typed w} hw => hsound.hasScalar (hwords.2 hw) ?_⟩
    exact hfollows.parts.needs_source (List.of_mem_zip hw).1
  · obtain ⟨hmem, hneeds, hunbound⟩ := (hfollows.parts.mem_called_iff hg).1 hn
    obtain ⟨f, -, hfunction⟩ := hfollows.functions n hn
    have hcontract := (hg.nodes_wellFormed n hmem).keepsContract hfunction (hhost n hmem
      (hfollows.nodeOrder ▸ List.mem_map_of_mem hn))
    refine absurd hsticks (hsound.not_sticks hmem hneeds (fun s hs hname => ?_) hcontract.ends)
    exact hunbound ⟨s.1, (List.of_mem_zip hs).1, hname⟩

end

/-- A unit that has returned has been given values of the types of the designated outputs. -/
theorem supplied_of_invoke {unit : GeneratedUnit} {g : Graph} {r : UnitRequest} {plan : UnitPlan}
    (hunit : unit.Follows plan g r) {number : Nat} {bank : Bank} {values vs : List Value}
    (h : (ofGenerated unit number).invoke bank values = .ok vs) :
    List.Forall₂ (fun port v => g.HasOutput port v.dataType) r.graphInputs values := by
  obtain ⟨hparts, rfl, hinput, -, -, -⟩ := hunit
  have hplan := hparts.serves
  have hlayout : (ofGenerated unit number).inputLayout = plan.inputLayout := hinput
  have hfields : plan.inputLayout.fields.length = unit.request.graphInputs.length := by
    have hports := congrArg List.length (RecordLayout.ofTypes_eq_ok hplan.inputLayout).2
    rw [List.length_map, List.length_map] at hports
    rw [hports, ← hplan.bindings.length_eq]
  unfold invoke at h
  split at h
  · contradiction
  · rename_i hcount
    rw [not_not, hlayout] at hcount
    change values.length = plan.inputLayout.fields.length at hcount
    obtain ⟨record, hwrite, -⟩ := bind_eq_ok h
    rw [hlayout] at hwrite
    refine hplan.supplied_of_types (List.ext_getElem? fun k => ?_)
    rw [List.getElem?_map, List.getElem?_map]
    cases hv : values[k]? with
    | none =>
        rw [List.getElem?_eq_none_iff, hcount] at hv
        rw [List.getElem?_eq_none_iff.2 hv]
        rfl
    | some v =>
        have hty := dataType?_of_writeInputs hwrite (by rw [hcount, hfields]; rfl) hv
        rw [Nat.zero_add, RecordLayout.dataType?] at hty
        exact hty.symm

section

variable {g : Graph} (hg : g.WellFormed) (hreroutes : g.ReroutesTyped) {r : UnitRequest}
  {b b₁ b₂ b₃ : Backend} {unit : GeneratedUnit}
  (hgenerate : b.generate g (Index.build g) (StorageLayout.build g (Index.build g)) r =
    (.ok unit, b₁))
  (hcompile : b₂.compileUnit unit = (.ok (), b₃))
  {bank : Bank} {cells : PortRef → Value}
  (hcells : (StorageLayout.build g (Index.build g)).Holds bank cells) {values : List Value}
  (hvalues : List.Forall₂ (fun port v => g.HasOutput port v.dataType) r.graphInputs values)
  (hhost : ∀ n ∈ g.nodes, n.name ∈ unit.nodeOrder → ∀ k, n.kind = .host k →
    g.KeepsContract (r.graphInputs.zip values) cells n b₂.verify)

include hg hreroutes hgenerate hcompile hcells hvalues hhost

theorem exists_yields (number : Nat) :
    ∃ vs, (ofGenerated unit number).invoke bank values = .ok vs ∧
      List.Forall₂ (g.Yields (r.graphInputs.zip values) cells) r.outputs vs := by
  obtain ⟨hunit, -⟩ := Backend.generate_eq_ok hgenerate
  obtain ⟨plan, words, hfollows, hwords, hexecute⟩ :=
    exists_execute hg hcells hvalues hreroutes hunit hcompile hhost number
  have hplan := hfollows.parts.serves
  have hsuits := suits_of_words hg hreroutes hplan.outputs hwords
  obtain ⟨vs, hvs⟩ := exists_values hsuits
  refine ⟨vs, ?_, yields_of_words hplan.outputs hwords hvs⟩
  have hlayout : (ofGenerated unit number).outputLayout = plan.outputLayout :=
    hfollows.outputLayout
  rw [invoke_of_execute hfollows hvalues hexecute, ← hlayout]
  exact readOutputs_fill (hlayout.symm ▸ hplan.outputLayout) hsuits hplan.outputs.length_eq hvs

end

/-- A unit that was generated with any order of the dependencies is the unit of a graph which is
alike, on the same cells and with host kinds that keep their contract as well. -/
theorem exists_links_generate {g : Graph} (hg : g.Reachable) {edges : List (String × String)}
    (hedges : edges.Perm (Index.build g).edges) {r : UnitRequest} {b b₁ : Backend}
    {unit : GeneratedUnit}
    (hgenerate : b.generate g ((Index.build g).listing edges) g.layout r = (.ok unit, b₁))
    {bank : Bank} {cells : PortRef → Value} (hcells : g.layout.Holds bank cells)
    {supplied : List (PortRef × Value)} {verify : Bool}
    (hhost : ∀ n ∈ g.nodes, n.name ∈ unit.nodeOrder → ∀ k, n.kind = .host k →
      g.KeepsContract supplied cells n verify) :
    ∃ links, (g.withLinks links).Alike (fun _ => False) g ∧
      b.generate (g.withLinks links) (Index.build (g.withLinks links)) (g.withLinks links).layout
        r = (.ok unit, b₁) ∧
      (g.withLinks links).layout.Holds bank cells ∧
      ∀ n ∈ g.nodes, n.name ∈ unit.nodeOrder → ∀ k, n.kind = .host k →
        (g.withLinks links).KeepsContract supplied cells n verify := by
  obtain ⟨links, hlinks, hrelinked⟩ := Graph.exists_generate_listing hg hedges
  have halike := Graph.withLinks_alike hg hlinks
  refine ⟨links, halike, (hrelinked b r).symm.trans hgenerate, halike.symm.holds hcells, ?_⟩
  intro n hn hname k hk
  have hcontract := hhost n hn hname k hk
  exact ⟨hcontract.checked, halike.symm.ends hcontract.ends⟩

theorem invoke_yields {g : Graph} (hg : g.Reachable) (hreroutes : g.ReroutesTyped)
    {edges : List (String × String)} (hedges : edges.Perm (Index.build g).edges)
    {r : UnitRequest} {b b₁ b₂ b₃ : Backend} {unit : GeneratedUnit}
    (hgenerate : b.generate g ((Index.build g).listing edges)
      (StorageLayout.build g (Index.build g)) r = (.ok unit, b₁))
    (hcompile : b₂.compileUnit unit = (.ok (), b₃))
    {bank : Bank} {cells : PortRef → Value}
    (hcells : (StorageLayout.build g (Index.build g)).Holds bank cells)
    {values : List Value}
    (hvalues : List.Forall₂ (fun port v => g.HasOutput port v.dataType) r.graphInputs values)
    (hhost : ∀ n ∈ g.nodes, n.name ∈ unit.nodeOrder → ∀ k, n.kind = .host k →
      g.KeepsContract (r.graphInputs.zip values) cells n b₂.verify)
    (number : Nat) :
    ∃ vs, (ofGenerated unit number).invoke bank values = .ok vs ∧
      List.Forall₂ (fun port v => ∀ v', g.Yields (r.graphInputs.zip values) cells port v' ↔ v' = v)
        r.outputs vs := by
  obtain ⟨links, halike, hgenerate', hcells', hhost'⟩ :=
    exists_links_generate hg hedges hgenerate hcells hhost
  obtain ⟨vs, hinvoke, hyields⟩ := exists_yields halike.left hreroutes hgenerate' hcompile hcells'
    hvalues hhost' number
  refine ⟨vs, hinvoke, hyields.imp fun port v hv v' => ?_⟩
  have hv := halike.yields hv not_false
  exact ⟨fun hv' => hv'.unique hv, fun h => h ▸ hv⟩

end CompiledUnit

/-! ## A relayed sum -/

theorem Backend.exists_of_build {b : Backend} {g : Graph} {ix : Index} {storage : StorageLayout}
    {r : UnitRequest} (h : (b.build g ix storage r).1.isOk = true) :
    ∃ unit b₁ b₂, b.generate g ix storage r = (.ok unit, b₁) ∧
      b₁.compileUnit unit = (.ok (), b₂) := by
  cases hbuild : b.build g ix storage r with
  | mk result b' =>
      rw [hbuild] at h
      cases result with
      | error e => contradiction
      | ok unit =>
          obtain ⟨b₁, hgenerate, hcompile⟩ := Backend.build_eq_ok hbuild
          exact ⟨unit, b₁, b', hgenerate, hcompile⟩

namespace RelayedSum

def source : Node := ⟨"source", .graphInput [⟨"x", .i32⟩], [], [⟨"x", .i32, none⟩]⟩

def relay : Node :=
  ⟨"relay", .reroute .i32, [⟨"input", .i32, some (.i32 0)⟩], [⟨"output", .i32, none⟩]⟩

def sum : Node :=
  ⟨"sum", .math .add .i32, [⟨"a", .i32, some (.i32 0)⟩, ⟨"b", .i32, some (.i32 0)⟩],
    [⟨"result", .i32, none⟩]⟩

/-- The sum of a supplied value, which comes through a reroute, and a cell. -/
def graph : Graph where
  name := "relayed sum"
  nodes := [source, relay, sum]
  links := [⟨⟨"relay", "input"⟩, ⟨"source", "x"⟩⟩, ⟨⟨"sum", "a"⟩, ⟨"relay", "output"⟩⟩]
  token := none

/-- The supplied output is designated twice, and the reroute is requested too. -/
def request : UnitRequest :=
  ⟨[⟨"sum", "result"⟩, ⟨"relay", "output"⟩], [⟨"source", "x"⟩, ⟨"source", "x"⟩]⟩

def plan : UnitPlan where
  version := graph.version
  outputs := [(⟨"sum", "result"⟩, .i32), (⟨"source", "x"⟩, .i32)]
  outputLayout := ⟨[⟨.i32, 0⟩, ⟨.i32, 4⟩], 8, 4⟩
  bindings := ⟨[(⟨"source", "x"⟩, .i32), (⟨"source", "x"⟩, .i32)]⟩
  inputLayout := ⟨[⟨.i32, 0⟩, ⟨.i32, 4⟩], 8, 4⟩
  order := [source, sum]

theorem reachable : graph.Reachable := by
  have h₁ : Graph.Reachable ⟨"relayed sum", [source], [], none⟩ :=
    .addNode (.empty _) (show (Graph.empty "relayed sum").addNode "source" source.kind =
      .ok (source, _) from rfl)
  have h₂ : Graph.Reachable ⟨"relayed sum", [source, relay], [], none⟩ :=
    .addNode h₁ (show Graph.addNode _ "relay" relay.kind = .ok (relay, _) from rfl)
  have h₃ : Graph.Reachable ⟨"relayed sum", [source, relay, sum], [], none⟩ :=
    .addNode h₂ (show Graph.addNode _ "sum" sum.kind = .ok (sum, _) from rfl)
  have h₄ := Graph.Reachable.link h₃
    (show Graph.link _ ⟨"source", "x"⟩ ⟨"relay", "input"⟩ = .ok (none, _) from rfl)
  exact .link h₄ (show Graph.link _ ⟨"relay", "output"⟩ ⟨"sum", "a"⟩ = .ok (none, _) from rfl)

theorem reroutesTyped : graph.ReroutesTyped := by
  intro n hn hreroute input hinput output houtput
  simp only [graph, List.mem_cons, List.not_mem_nil, or_false] at hn
  rcases hn with rfl | rfl | rfl
  · contradiction
  · cases hinput
    rw [List.mem_singleton.1 houtput]
  · contradiction

theorem order_eq : evaluationOrder graph (Index.build graph) ["source"] ["sum", "source"] =
    .ok [source, sum] := by
  have hedges : (Index.build graph).edges = [("sum", "source")] := by decide +kernel
  have hneeds : Schedule.needs [("sum", "source")] ["source"] =
      fun node => if node = "sum" then ["source"] else [] := by
    funext node
    by_cases hsum : node = "sum"
    · subst hsum
      rfl
    · rw [if_neg hsum]
      simp [Schedule.needs, Ne.symm hsum]
  simp only [evaluationOrder, scheduleRoots, Index.contains, hedges, hneeds, ← Option.not_isSome]
  simp only [Index.build]
  cbv

theorem plan_made : UnitPlan.make graph (Index.build graph)
    (StorageLayout.build graph (Index.build graph)) request = .ok plan := by
  refine UnitPlan.make_of_parts rfl (by decide) ?_ (by decide) ?_ (by decide) order_eq
  · decide +kernel
  · decide +kernel

theorem built : ((Backend.new {}).build graph (Index.build graph)
    (StorageLayout.build graph (Index.build graph)) request).1.isOk = true := by
  simp only [Backend.build, Backend.generate, generateUnit, plan_made]
  decide +kernel

/-- With 5 in the cell and 3 supplied, and 4 supplied once more, which does not count. -/
theorem invoke_yields_relayedSum : ∃ unit b₁ b₂,
    (Backend.new {}).generate graph (Index.build graph)
      (StorageLayout.build graph (Index.build graph)) request = (.ok unit, b₁) ∧
    b₁.compileUnit unit = (.ok (), b₂) ∧
    ∃ vs, (CompiledUnit.ofGenerated unit 0).invoke [("sum - b", (Value.i32 5).toBytes)]
        [.i32 3, .i32 4] = .ok vs ∧
      List.Forall₂ (fun port v => ∀ v', graph.Yields
        (request.graphInputs.zip [.i32 3, .i32 4]) (fun _ => .i32 5) port v' ↔ v' = v)
        request.outputs vs := by
  obtain ⟨unit, b₁, b₂, hgenerate, hcompile⟩ := Backend.exists_of_build built
  have hcells : (StorageLayout.build graph (Index.build graph)).Holds
      [("sum - b", (Value.i32 5).toBytes)] fun _ => .i32 5 := by
    unfold StorageLayout.Holds
    decide +kernel
  have hsupplied : graph.HasOutput ⟨"source", "x"⟩ .i32 := ⟨⟨"x", .i32, none⟩, rfl, rfl⟩
  have hvalues : List.Forall₂ (fun port (v : Value) => graph.HasOutput port v.dataType)
      request.graphInputs [.i32 3, .i32 4] := .cons hsupplied (.cons hsupplied .nil)
  have hstock : ∀ n ∈ graph.nodes, ∀ k, n.kind ≠ .host k := by
    intro n hn k hk
    simp only [graph, List.mem_cons, List.not_mem_nil, or_false] at hn
    rcases hn with rfl | rfl | rfl <;> cases hk
  exact ⟨unit, b₁, b₂, hgenerate, hcompile,
    CompiledUnit.invoke_yields reachable reroutesTyped (.refl _) hgenerate hcompile
      hcells hvalues (fun n hn _ k hk => absurd hk (hstock n hn k)) 0⟩

end RelayedSum

end Dataflow
