import Dataflow.Proofs.Unit.Generability
import Dataflow.Proofs.Unit.Planning

/-!
# Which nodes have code

A node has a function exactly when all its ports have native types and its kind emits one value
of the right type for each output.
-/

namespace Dataflow

open Ir

namespace Node

variable {n : Node} {inputs outputs : List Ty}

/-- The place where the code of the node is emitted, its ports having these types. -/
def emitSite (n : Node) (inputs outputs : List Ty) : EmitSite :=
  let types := inputs ++ outputs.map fun _ => Ty.address
  let params : List Operand := types.mapIdx fun k ty => (k, ty)
  ⟨n.name, params, params.take inputs.length, types.length⟩

/-- The node has native ports only, and code that gives a value of the right type for each
output. -/
def Emits (n : Node) : Prop :=
  ∃ inputs outputs fragment, n.inputs.map (fun p => p.dataType.native) = inputs.map some ∧
    n.outputs.map (fun p => p.dataType.native) = outputs.map some ∧
    n.kind.computation.emit (n.emitSite inputs outputs) = .ok fragment ∧
    fragment.results.map Prod.snd = outputs

theorem portTypes_eq_ok_iff {role : PortRole} {types : List Ty} :
    n.portTypes role = .ok types ↔
      (n.ports role).map (fun p => p.dataType.native) = types.map some := by
  unfold portTypes
  rw [mapM_eq_ok_iff, ← List.forall₂_eq_eq_eq, List.forall₂_map_left_iff,
    List.forall₂_map_right_iff]
  simp only [nativeType_eq_ok_iff]

theorem Emits.native (h : n.Emits) {role : PortRole} {p : Port} (hp : p ∈ n.ports role) :
    p.dataType ≠ .handle := by
  obtain ⟨inputs, outputs, -, hinputs, houtputs, -⟩ := h
  have htypes : ∀ types : List Ty, (n.ports role).map (fun p => p.dataType.native) =
      types.map some → p.dataType ≠ .handle := by
    intro types htypes
    have hmem : p.dataType.native ∈ types.map some :=
      htypes ▸ List.mem_map_of_mem (f := fun p : Port => p.dataType.native) hp
    obtain ⟨native, -, hnative⟩ := List.mem_map.1 hmem
    exact DataType.exists_native_iff.1 ⟨native, hnative.symm⟩
  cases role with
  | input => exact htypes inputs hinputs
  | output => exact htypes outputs houtputs

theorem storeResults_ok_iff {results targets : List Operand} {types : List Ty}
    (hresults : results.length = types.length) (htargets : targets.length = types.length) :
    (∃ stores, storeResults results targets types = .ok stores) ↔
      results.map Prod.snd = types := by
  induction types generalizing results targets with
  | nil =>
      rw [List.length_nil, List.length_eq_zero_iff] at hresults
      simp [hresults, storeResults]
  | cons ty types ih =>
      cases results with
      | nil => contradiction
      | cons result results =>
          cases targets with
          | nil => contradiction
          | cons target targets =>
              have hrest := @ih results targets (by simpa using hresults) (by simpa using htargets)
              unfold storeResults
              rw [List.map_cons, List.cons.injEq, ← hrest]
              split
              · rename_i hty
                simp only [hty, true_and]
                cases storeResults results targets types with
                | error e => simp [bind, Except.bind]
                | ok stores => simp [bind, Except.bind, pure, Except.pure]
              · rename_i hty
                simp [hty]

theorem function_ok_iff {id : Nat} {name : String} :
    (∃ f, n.function id name inputs outputs = .ok f) ↔
      ∃ fragment, n.kind.computation.emit (n.emitSite inputs outputs) = .ok fragment ∧
        fragment.results.map Prod.snd = outputs := by
  have htargets : (((inputs ++ outputs.map fun _ => Ty.address).mapIdx fun k ty =>
      ((k, ty) : Operand)).drop inputs.length).length = outputs.length := by
    simp
  change (∃ f, (n.kind.computation.emit (n.emitSite inputs outputs) >>= _) = .ok f) ↔ _
  cases n.kind.computation.emit (n.emitSite inputs outputs) with
  | error e => simp [bind, Except.bind]
  | ok fragment =>
      simp only [bind, Except.bind, Except.ok.injEq, exists_eq_left']
      by_cases hcount : fragment.results.length = outputs.length
      · have hstores := storeResults_ok_iff hcount htargets
        rw [← hstores, if_neg (not_not.2 hcount)]
        cases storeResults fragment.results _ outputs with
        | error e => simp
        | ok stores => simp [pure, Except.pure]
      · rw [if_pos hcount]
        have hne : fragment.results.map Prod.snd ≠ outputs := by
          intro heq
          apply hcount
          rw [← heq, List.length_map]
        simp [throw, throwThe, MonadExceptOf.throw, hne]

theorem exists_isFunction_iff : (∃ f, n.IsFunction f) ↔ n.Emits := by
  constructor
  · rintro ⟨f, id, name, inputs, outputs, hinputs, houtputs, hfunction⟩
    obtain ⟨fragment, hemit, hresults⟩ := function_ok_iff.1 ⟨f, hfunction⟩
    exact ⟨inputs, outputs, fragment, portTypes_eq_ok_iff.1 hinputs,
      portTypes_eq_ok_iff.1 houtputs, hemit, hresults⟩
  · rintro ⟨inputs, outputs, fragment, hinputs, houtputs, hemit, hresults⟩
    obtain ⟨f, hfunction⟩ := function_ok_iff.2 ⟨fragment, hemit, hresults⟩
    exact ⟨f, 0, "", inputs, outputs, portTypes_eq_ok_iff.2 hinputs,
      portTypes_eq_ok_iff.2 houtputs, hfunction⟩

end Node

end Dataflow
