import Dataflow.Proofs.Evaluator.Journal
import Dataflow.Proofs.Evaluator.Unfailed

/-!
# Answers and readings

Reading an input and running a unit refer to the same cells. After a run without failures a
request that gets its unit is therefore answered with the values that the graph gives to the
outputs when every free input has the value that is read there:
`Evaluator.Settled.evaluateRequest_yields`. Further requests make no difference to what is read:
`Evaluator.Settled.asked`.
-/

namespace Dataflow

open Ir

namespace Evaluator

variable {e e' : Evaluator} {graphs : List Graph} {globals : CompiledGlobals} {past : List Event}

/-- The values that are read at the inputs; where none can be read, any will do. -/
def reading (e : Evaluator) (port : PortRef) : Value :=
  match e.readInput port with
  | .ok value => value
  | .error _ => .bool false

theorem reading_of_readInput {port : PortRef} {value : Value} (h : e.readInput port = .ok value) :
    e.reading port = value := by
  unfold reading
  rw [h]

theorem reading_congr
    (h : ∀ port value, e.readInput port = .ok value ↔ e'.readInput port = .ok value) :
    e.reading = e'.reading := by
  funext port
  unfold reading
  cases hread : e.readInput port with
  | ok value => rw [(h port value).1 hread]
  | error err =>
      cases hread' : e'.readInput port with
      | error err' => rfl
      | ok value =>
          rw [(h port value).2 hread'] at hread
          contradiction

/-! ## Settled evaluators -/

/-- What holds of an evaluator after a run without failures. -/
structure Settled (graphs : List Graph) (e : Evaluator) : Prop where
  apart : Graph.ToldApart graphs
  coherent : e.Coherent
  inStep : InStep graphs e
  unfailed : e.Unfailed
  recorded : ∃ past, e.Recorded past

theorem settled_after {g : Graph} {commands : List Command}
    (hapart : Graph.ToldApart (graphsOf g commands)) (options : Options)
    (hnone : failures ((new g options).outcomes commands) = 0) :
    ((new g options).after commands).Settled (graphsOf g commands) where
  apart := hapart
  coherent := coherent_after g options commands
  inStep := inStep_after hapart options
  unfailed := unfailed_after hapart options hnone
  recorded := ⟨_, (recorded_new g options).after
    (inStep_new (hapart.reachable g List.mem_cons_self) List.mem_cons_self options)
    (coherent_new g options) hapart fun _ hcommand _ hgraph => mem_graphsOf hcommand hgraph⟩

section

variable (h : e.Settled graphs)

include h

/-- Inputs are read where they are free, with the values that are recorded. -/
theorem Settled.readInput_eq_ok_iff (hrecorded : e.Recorded past)
    (hglobals : e.cache.globals = some globals) (port : PortRef) (value : Value) :
    e.readInput port = .ok value ↔
      (∃ ty, e.graph.FreeInput port ty) ∧ given port past = some value := by
  rw [← (h.inStep.layout globals hglobals).exists_cell_iff,
    (hrecorded.cells globals hglobals).readInput (currentGlobals_of_globals h.coherent hglobals)]

/-- With the same inputs recorded for the same graph, the same values are read. -/
theorem Settled.reading_eq (hrecorded : e.Recorded past) (hglobals : e.cache.globals ≠ none)
    (h' : e'.Settled graphs) (hrecorded' : e'.Recorded past) (hglobals' : e'.cache.globals ≠ none)
    (hgraph : e'.graph = e.graph) : e'.reading = e.reading := by
  obtain ⟨globals, hglobals⟩ := Option.ne_none_iff_exists'.1 hglobals
  obtain ⟨globals', hglobals'⟩ := Option.ne_none_iff_exists'.1 hglobals'
  apply reading_congr
  intro port value
  rw [h.readInput_eq_ok_iff hrecorded hglobals, h'.readInput_eq_ok_iff hrecorded' hglobals', hgraph]

/-- The cells hold what is read at the inputs. -/
theorem Settled.holds (hglobals : e.cache.globals = some globals) :
    e.graph.layout.Holds (e.bank globals.bank) e.reading := by
  obtain ⟨past, hrecorded⟩ := h.recorded
  have hfor := h.inStep.layout globals hglobals
  have ⟨k, hk, hlayout⟩ := hfor
  apply hk.twins.holds
  intro cell hcell
  rw [← hlayout] at hcell
  obtain ⟨v, hv, htype, hlookup⟩ := hrecorded.cells globals hglobals cell hcell
  have hread : e.readInput cell.port = .ok v :=
    (h.readInput_eq_ok_iff hrecorded hglobals cell.port v).2
      ⟨⟨cell.dataType, hfor.freeInput hcell⟩, hv⟩
  rw [reading_of_readInput hread]
  exact ⟨hlookup, htype⟩

/-- Having the cells compiled leaves an evaluator settled. -/
theorem Settled.exists_ensured (hrecorded : e.Recorded past) :
    ∃ globals e', e.ensureGlobals = (.ok globals, e') ∧ e'.Settled graphs ∧ e'.graph = e.graph ∧
      e'.cache.globals = some globals ∧
      e'.Recorded ((if e.cache.globals = none then [.compiled] else []) ++ past) := by
  obtain ⟨globals, e', hensure, hensured⟩ := Evaluator.exists_ensured h.coherent
  have hrecorded' := hrecorded.ensured h.inStep h.apart hensured
  have hchanges := (changes_ensureGlobals h.coherent).1
  rw [hensure] at hchanges
  exact ⟨globals, e', hensure, {
    apart := h.apart
    coherent := hchanges.coherent h.coherent
    inStep := h.inStep.ensured h.apart hensured
    unfailed := (h.unfailed.ensured h.coherent hensure hensured).1
    recorded := ⟨_, hrecorded'⟩ }, hensured.graph, hensured.installed, hrecorded'⟩

end

/-- The values of the inputs for the next request, which compiles the cells if need be. -/
def cellValues (e : Evaluator) : PortRef → Value := e.ensureGlobals.2.reading

/-- Where the cells are compiled, the values are those that are read now. -/
theorem Settled.cellValues_eq (h : e.Settled graphs) (hglobals : e.cache.globals ≠ none) :
    e.cellValues = e.reading := by
  obtain ⟨past, hrecorded⟩ := h.recorded
  obtain ⟨globals, e', hensure, h', hgraph, hinstalled, hrecorded'⟩ := h.exists_ensured hrecorded
  rw [if_neg hglobals] at hrecorded'
  unfold cellValues
  rw [hensure]
  exact h.reading_eq hrecorded hglobals h' hrecorded' (by rw [hinstalled]; exact nofun) hgraph

/-- The values suit the cells of the graph. -/
theorem Settled.holds_cellValues (h : e.Settled graphs) :
    ∃ bank, e.graph.layout.Holds bank e.cellValues := by
  obtain ⟨past, hrecorded⟩ := h.recorded
  obtain ⟨globals, e', hensure, h', hgraph, hinstalled, -⟩ := h.exists_ensured hrecorded
  unfold cellValues
  rw [hensure, ← hgraph]
  exact ⟨_, h'.holds hinstalled⟩

/-! ## Requests that get a unit -/

section

variable (h : e.Settled graphs) {r : UnitRequest} {unit : CompiledUnit}
  (hunit : (e.compile r).1 = .ok unit)

include h hunit

/-- The unit was made for the request and the present graph, and it loads from the cells there
are then. -/
theorem Settled.unit_compile : unit.MadeFor e.graph e.options.verify ∧ unit.request = r ∧
    unit.version = (e.compile r).2.version ∧
    ∃ globals, (e.compile r).2.cache.globals = some globals ∧ unit.bank = globals.bank := by
  have hcompiles := compiles_compile h.coherent r
  have hmem := hcompiles.unit unit hunit
  have hmade := (h.unfailed.compile h.coherent h.inStep h.apart hunit).units _ hmem
  rw [hcompiles.graph, options_compile] at hmade
  obtain ⟨hkey, hversion, -, globals, hglobals, hinto⟩ :=
    (hcompiles.changes.coherent h.coherent).units _ hmem
  exact ⟨hmade, (Prod.mk.inj hkey).2.symm, hversion, globals, hglobals, hinto.bank⟩

theorem Settled.compile : (e.compile r).2.Settled graphs where
  apart := h.apart
  coherent := (compiles_compile h.coherent r).changes.coherent h.coherent
  inStep := h.inStep.compile h.apart h.coherent r
  unfailed := h.unfailed.compile h.coherent h.inStep h.apart hunit
  recorded := by
    obtain ⟨past, hrecorded⟩ := h.recorded
    exact ⟨_, hrecorded.compile h.inStep h.coherent h.apart r⟩

/-- It makes no difference to what is read which request has the cells compiled. -/
theorem Settled.reading_compile : (e.compile r).2.reading = e.cellValues := by
  obtain ⟨-, -, -, globals, hglobals, -⟩ := h.unit_compile hunit
  obtain ⟨past, hrecorded⟩ := h.recorded
  obtain ⟨globals', e', hensure, h', hgraph, hinstalled, hrecorded'⟩ := h.exists_ensured hrecorded
  have hcompiled := hrecorded.compile h.inStep h.coherent h.apart r
  have hne : (e.compile r).2.cache.globals ≠ none := by
    rw [hglobals]
    exact nofun
  rw [compilation_of_installed hne] at hcompiled
  unfold cellValues
  rw [hensure]
  exact h'.reading_eq hrecorded' (by rw [hinstalled]; exact nofun) (h.compile hunit) hcompiled hne
    ((compiles_compile h.coherent r).graph.trans hgraph.symm)

theorem Settled.cellValues_compile : (e.compile r).2.cellValues = e.cellValues := by
  obtain ⟨-, -, -, globals, hglobals, -⟩ := h.unit_compile hunit
  rw [(h.compile hunit).cellValues_eq (by rw [hglobals]; exact nofun), h.reading_compile hunit]

/-- The answer is what the unit returns on the cells, which hold the values of the inputs. -/
theorem Settled.exists_answers (values : List Value) :
    ∃ bank, e.graph.layout.Holds bank e.cellValues ∧
      (e.evaluateRequest r values).1 = unit.invoke bank values := by
  obtain ⟨-, -, hversion, globals, hglobals, hbank⟩ := h.unit_compile hunit
  have hcells := (h.compile hunit).holds hglobals
  rw [(compiles_compile h.coherent _).graph, h.reading_compile hunit, ← hbank] at hcells
  refine ⟨_, hcells, ?_⟩
  rw [← invoke_of_version hversion]
  unfold evaluateRequest
  generalize e.compile r = outcome at hunit ⊢
  obtain ⟨result, e'⟩ := outcome
  cases hunit
  rfl

section

variable (hreroutes : e.graph.ReroutesTyped) {values : List Value}
  (hvalues : List.Forall₂ (fun port v => e.graph.HasOutput port v.dataType) r.graphInputs values)

include hreroutes hvalues

/-- A request that gets a unit is answered with the values of its outputs, if the host kinds keep
their contract. -/
theorem Settled.evaluateRequest_yields
    (hhost : e.graph.HostsKeepContract r e.options.verify (r.graphInputs.zip values)
      e.cellValues) :
    ∃ vs, (e.evaluateRequest r values).1 = .ok vs ∧
      List.Forall₂ (e.graph.Yields (r.graphInputs.zip values) e.cellValues) r.outputs vs := by
  obtain ⟨bank, hcells, hanswer⟩ := h.exists_answers hunit values
  obtain ⟨hmade, rfl, -⟩ := h.unit_compile hunit
  rw [hanswer]
  exact hmade.exists_yields hreroutes hcells hvalues hhost

/-- If a request is answered, then the nodes computed for it have results on the values of their
inputs. -/
theorem Settled.evaluates_of_evaluateRequest
    (hhost : e.graph.HostsEmitChecked r e.options.verify) {vs : List Value}
    (hok : (e.evaluateRequest r values).1 = .ok vs) {m : Node} (hm : m ∈ e.graph.nodes)
    (hneeds : e.graph.Needs r m.name) (hfree : ¬ r.Binds m.name) :
    e.graph.Evaluates (r.graphInputs.zip values) e.cellValues m := by
  obtain ⟨bank, hcells, hanswer⟩ := h.exists_answers hunit values
  obtain ⟨hmade, rfl, -⟩ := h.unit_compile hunit
  rw [hanswer] at hok
  exact hmade.evaluates_of_invoke hreroutes hcells hvalues hhost hok hm hneeds hfree

end

end

theorem exists_compile_of_evaluateRequest {r : UnitRequest} {values vs : List Value}
    (h : (e.evaluateRequest r values).1 = .ok vs) : ∃ unit, (e.compile r).1 = .ok unit := by
  unfold evaluateRequest at h
  generalize e.compile r = outcome at h ⊢
  obtain ⟨result, e'⟩ := outcome
  cases result with
  | error err => contradiction
  | ok unit => exact ⟨unit, rfl⟩

/-! ## Requests one after the other -/

/-- Requests have led from the one evaluator to the other, all of which got their units. -/
def Asked : Evaluator → Evaluator → Prop :=
  Relation.ReflTransGen fun e e' => ∃ r unit, e.compile r = (.ok unit, e')

/-- Requests change neither the graph nor the options nor the values of the inputs. -/
theorem Settled.asked (h : e.Settled graphs) (hasked : e.Asked e') :
    e'.Settled graphs ∧ e'.graph = e.graph ∧ e'.options = e.options ∧
      e'.cellValues = e.cellValues := by
  induction hasked with
  | refl => exact ⟨h, rfl, rfl, rfl⟩
  | @tail e₁ e₂ _ hstep ih =>
      obtain ⟨h₁, hgraph, hoptions, hvalues⟩ := ih
      obtain ⟨r, unit, hcompile⟩ := hstep
      have hunit : (e₁.compile r).1 = .ok unit := by rw [hcompile]
      obtain rfl : e₂ = (e₁.compile r).2 := by rw [hcompile]
      exact ⟨h₁.compile hunit, (compiles_compile h₁.coherent r).graph.trans hgraph,
        (options_compile e₁ r).trans hoptions, (h₁.cellValues_compile hunit).trans hvalues⟩

theorem asked_of_evaluateRequest {r : UnitRequest} {values vs : List Value}
    (h : (e.evaluateRequest r values).1 = .ok vs) : e.Asked (e.evaluateRequest r values).2 := by
  obtain ⟨unit, hunit⟩ := exists_compile_of_evaluateRequest h
  rw [snd_evaluateRequest]
  exact .single ⟨r, unit, Prod.ext hunit rfl⟩

end Evaluator

end Dataflow
