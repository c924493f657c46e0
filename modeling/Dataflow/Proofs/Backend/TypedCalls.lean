import Dataflow.Proofs.Backend.Building
import Dataflow.Proofs.Unit.EntryCode

/-!
# Generated calls are well typed

Types are checked link by link when links are made, and reroutes that hand on the type of their
first input carry the type along whole chains. So data has the type of the input that it reaches,
and the entry function of a unit passes to each node what its function takes. Stock kinds hand on
types and emit code that passes the check, so units of stock nodes always pass:
`Backend.generated_calls_wellTyped`.
-/

namespace Dataflow

open Ir

/-- Reroutes of stock kinds hand on the type of their input. -/
theorem Graph.reroutesTyped_of_stock {g : Graph} (hg : g.WellFormed)
    (hstock : ∀ n ∈ g.nodes, ∀ k, n.kind ≠ .host k) : g.ReroutesTyped := by
  intro n hn hreroute input hinput output houtput
  have hinputs := (hg.nodes_wellFormed n hn).inputs_typed
  have houtputs := (hg.nodes_wellFormed n hn).outputs_typed
  have hin := List.mem_map_of_mem (f := Port.dataType) (List.mem_of_head? hinput)
  have hout := List.mem_map_of_mem (f := Port.dataType) houtput
  rw [hinputs] at hin
  rw [houtputs] at hout
  obtain ⟨ty, hkind⟩ : ∃ ty, n.kind = .reroute ty := by
    unfold Node.isReroute Kind.isReroute at hreroute
    split at hreroute
    · rename_i ty hkind
      exact ⟨ty, hkind⟩
    · rename_i k hkind
      exact absurd hkind (hstock n hn k)
    · contradiction
  rw [hkind] at hin hout
  rw [List.mem_singleton.1 hin, List.mem_singleton.1 hout]

namespace Backend

/-- Functions that pass the check are not refused for their code. -/
theorem not_verification_of_wellTyped {unit : GeneratedUnit}
    (h : ∀ f ∈ unit.functions, f.wellTyped = true) (b : Backend) (name : String) :
    (b.compileUnit unit).1 ≠ .error (.verification name) := by
  unfold compileUnit
  split
  · rename_i f hfind
    have hill := List.find?_some hfind
    rw [h f (List.mem_of_find?_eq_some hfind), Bool.not_true, Bool.and_false] at hill
    contradiction
  · intro hfails
    obtain ⟨s, hs⟩ := error_of_defineFunctions hfails
    contradiction

/-- With reroutes that hand on the type of their first input, data has the type of the input it
reaches, and entry functions are put together and typed as `EntryContext.Enters` says. With stock
kinds only, no unit is ever refused for its code. -/
theorem generated_calls_wellTyped {g : Graph} (hg : g.Reachable) :
    (g.ReroutesTyped →
      (∀ n ∈ g.nodes, ∀ p ∈ n.inputs, ∀ source,
        (Index.build g).dataOrigin? (n.portRef p) = some source →
          g.HasOutput source p.dataType) ∧
      ∀ (b b' : Backend) (layout : StorageLayout) (r : UnitRequest) (unit : GeneratedUnit),
        b.generate g (Index.build g) layout r = (.ok unit, b') →
        ∃ plan nodes entry body, UnitPlan.make g (Index.build g) layout r = .ok plan ∧
          unit.functions = nodes.map Prod.snd ++ [entry] ∧ unit.entry = entry.id ∧
          EntryContext.Enters ⟨Index.build g, layout, plan, nodes⟩ g entry body) ∧
    ((∀ n ∈ g.nodes, ∀ k, n.kind ≠ .host k) →
      ∀ (b b' b₂ : Backend) (layout : StorageLayout) (r : UnitRequest) (unit : GeneratedUnit),
        b.generate g (Index.build g) layout r = (.ok unit, b') →
        ∀ name, (b₂.compileUnit unit).1 ≠ .error (.verification name)) := by
  have hwell := hg.wellFormed
  refine ⟨fun hreroutes => ⟨?_, ?_⟩, ?_⟩
  · intro n hn p hp source hsource
    rw [Index.dataOrigin?_build] at hsource
    exact Graph.hasOutput_resolve? hwell hreroutes
      (hwell.port_of_mem hn (show p ∈ n.ports .input from hp)) hsource
  · intro b b' layout r unit hgenerate
    obtain ⟨hrun, -⟩ := generate_eq_ok hgenerate
    obtain ⟨plan, nodes, entry, t₁, hplan, hnodes, hentry, rfl⟩ := generateUnit_eq_ok hrun
    have hparts := UnitPlan.parts_of_make hplan
    obtain ⟨body, henters⟩ := EntryContext.enters_generate
      (suits_of_generateNodes hwell hparts hnodes layout)
      (fun n hn => ((hparts.mem_called_iff hwell).1 hn).1)
      (fun n hn => hreroutes.fed hwell ((hparts.mem_called_iff hwell).1 hn).1)
      (fun n hn f hf => (called_of_lookup hwell hparts hnodes hn hf).2) hentry
    exact ⟨plan, nodes, entry, body, hplan, rfl, rfl, henters⟩
  · intro hstock b b' b₂ layout r unit hgenerate
    obtain ⟨hrun, -⟩ := generate_eq_ok hgenerate
    have hreroutes := Graph.reroutesTyped_of_stock hwell hstock
    have htyped := (wellTyped_generateUnit_iff hwell hrun).2 fun n hn _ _ =>
      ⟨(hwell.nodes_wellFormed n hn).emitsChecked fun k hk => absurd hk (hstock n hn k),
        hreroutes.fed hwell hn⟩
    exact not_verification_of_wellTyped htyped b₂

end Backend

namespace RelayedSum

theorem stock : ∀ n ∈ graph.nodes, ∀ k, n.kind ≠ .host k := by
  intro n hn k
  simp only [graph, List.mem_cons, List.not_mem_nil, or_false] at hn
  rcases hn with rfl | rfl | rfl <;> simp [source, relay, sum]

theorem generated : ∃ unit b', (Backend.new {}).generate graph (Index.build graph) graph.layout
    request = (.ok unit, b') := by
  obtain ⟨unit, b₁, -, hgenerate, -⟩ := Backend.exists_of_build built
  exact ⟨unit, b₁, hgenerate⟩

/-- The sum takes two integers and the address of its result, which has a slot of four bytes. -/
theorem generated_calls_wellTyped_relayedSum : graph.Reachable ∧ graph.ReroutesTyped ∧
    (∀ n ∈ graph.nodes, ∀ k, n.kind ≠ .host k) ∧
    graph.HasOutput ⟨"source", "x"⟩ .i32 ∧
    ∃ unit b', (Backend.new {}).generate graph (Index.build graph) graph.layout request =
        (.ok unit, b') ∧
      (∃ nodes entry, unit.functions = nodes ++ [entry] ∧ entry.slots = [4] ∧
        entry.callees.map Callee.params = [[.i32, .i32, .address]]) ∧
      ∀ name, (b'.compileUnit unit).1 ≠ .error (.verification name) := by
  obtain ⟨htyped, hstock⟩ := Backend.generated_calls_wellTyped reachable
  obtain ⟨horigins, henters⟩ := htyped reroutesTyped
  obtain ⟨unit, b', hgenerate⟩ := generated
  refine ⟨reachable, reroutesTyped, stock, ?_, unit, b', hgenerate, ?_,
    hstock stock _ _ b' _ _ _ hgenerate⟩
  · exact horigins sum (by decide) ⟨"a", .i32, some (.i32 0)⟩ (by decide) _ (by decide +kernel)
  · obtain ⟨made, nodes, entry, body, hplan, hfunctions, -, h⟩ := henters _ _ _ _ _ hgenerate
    obtain rfl : plan = made := Except.ok.inj (plan_made.symm.trans hplan)
    refine ⟨_, entry, hfunctions, ?_, ?_⟩
    · have hslots : List.Forall₂ TypedPort.Sizes [sum.typedPort ⟨"result", .i32, none⟩]
        entry.slots := h.slots
      obtain ⟨size, rest, ⟨native, hnative, rfl⟩, hrest, hsizes⟩ :=
        List.forall₂_cons_left_iff.1 hslots
      cases hrest
      cases hnative
      exact hsizes
    · have hcallees : List.Forall₂ (fun n callee => n.IsCalledAs (nodes.map Prod.snd) callee)
        [sum] entry.callees := h.callees
      obtain ⟨callee, rest, ⟨f, -, -, -, natives, hnatives, hparams⟩, hrest, hsame⟩ :=
        List.forall₂_cons_left_iff.1 hcallees
      cases hrest
      have hinputs : natives = [.i32, .i32] :=
        List.map_injective_iff.2 (fun _ _ h => Option.some.inj h) hnatives.symm
      rw [hsame, List.map_singleton, hparams, hinputs]
      rfl

end RelayedSum

end Dataflow
