import Dataflow.Proofs.Index.Origins
import Dataflow.Proofs.Record.Access
import Dataflow.Proofs.Unit.Generation

/-!
# What a plan promises

A plan that is made for a request resolves every requested output, lists the designated
outputs in the order of the request, lays both records out and orders nodes of the graph.
-/

namespace Dataflow

theorem nativeType_eq_ok {port : PortRef} {ty : DataType} {native : Ir.Ty}
    (h : nativeType port ty = .ok native) : ty.native = some native := by
  unfold nativeType at h
  split at h
  · contradiction
  · rename_i hnative
    cases h
    exact hnative

theorem outputType_eq_ok {g : Graph} {port : PortRef} {ty : DataType}
    (h : outputType g port = .ok ty) : g.HasOutput port ty := by
  unfold outputType at h
  split at h
  · rename_i p hp
    cases h
    exact ⟨p, hp, rfl⟩
  · contradiction

theorem RecordLayout.forPorts_eq_ok {ports : List TypedPort} {layout : RecordLayout}
    (h : RecordLayout.forPorts ports = .ok layout) :
    RecordLayout.ofTypes (ports.map Prod.snd) = .ok layout := by
  unfold RecordLayout.forPorts at h
  split at h
  · rename_i hlayout
    cases h
    exact hlayout
  · contradiction

/-- A requested output together with the port that computes it and its own type. -/
def Graph.Resolves (g : Graph) (port : PortRef) (typed : TypedPort) : Prop :=
  g.HasOutput port typed.2 ∧ typed.2.native.isSome ∧
    g.resolveFrom? g.rerouteNames port = some typed.1

theorem resolveOutput_eq_ok {g : Graph} {port : PortRef} {typed : TypedPort}
    (h : resolveOutput g (Index.build g) port = .ok typed) : g.Resolves port typed := by
  obtain ⟨ty, hty, h₁⟩ := bind_eq_ok h
  obtain ⟨native, hnative, h₂⟩ := bind_eq_ok h₁
  obtain ⟨source, hsource, h₃⟩ := bind_eq_ok h₂
  cases h₃
  refine ⟨outputType_eq_ok hty, by rw [nativeType_eq_ok hnative]; rfl, ?_⟩
  change followReroutes g (Index.build g) port g.rerouteNames port = .ok source at hsource
  rw [followReroutes_build] at hsource
  split at hsource
  · rename_i hresolve
    cases hsource
    exact hresolve
  · contradiction

namespace Bindings

/-- The bindings list the designated outputs with their types. -/
def Lists (b : Bindings) (g : Graph) (ports : List PortRef) : Prop :=
  List.Forall₂ (fun port typed => typed.1 = port ∧ g.HasOutput port typed.2) ports b.ports

theorem make_eq_ok {g : Graph} {ix : Index} {inputs : List PortRef} {b : Bindings}
    (h : make g ix inputs = .ok b) : b.Lists g inputs := by
  obtain ⟨ports, hports, h₁⟩ := bind_eq_ok h
  obtain ⟨-, -, h₂⟩ := bind_eq_ok h₁
  cases h₂
  refine (forall₂_of_mapM_eq_ok hports).imp ?_
  intro port typed hdesignate
  obtain ⟨ty, hty, hrest⟩ := bind_eq_ok hdesignate
  split at hrest
  · contradiction
  · cases hrest
    exact ⟨rfl, outputType_eq_ok hty⟩

variable {b : Bindings} {g : Graph} {ports : List PortRef}

theorem Lists.ports_eq (h : b.Lists g ports) : b.ports.map Prod.fst = ports := by
  unfold Lists at h
  generalize b.ports = typed at h
  induction h with
  | nil => rfl
  | cons hfirst _ ih => rw [List.map_cons, ih, hfirst.1]

theorem Lists.binds_iff (h : b.Lists g ports) (name : String) :
    b.binds name = true ↔ ∃ port ∈ ports, port.node = name := by
  rw [binds, nodes, List.contains_iff_mem, List.mem_eraseDups, ← h.ports_eq]
  simp

end Bindings

/-- What a plan says about a request on a graph. -/
structure UnitPlan.Serves (plan : UnitPlan) (g : Graph) (r : UnitRequest) : Prop where
  outputs : List.Forall₂ g.Resolves r.outputs plan.outputs
  outputLayout : RecordLayout.ofTypes (plan.outputs.map Prod.snd) = .ok plan.outputLayout
  bindings : plan.bindings.Lists g r.graphInputs
  inputLayout : RecordLayout.ofTypes (plan.bindings.ports.map Prod.snd) = .ok plan.inputLayout
  order : ∀ n ∈ plan.order, n ∈ g.nodes

theorem Schedule.needs_nil (bound : List String) : Schedule.needs [] bound = fun _ => [] := by
  funext node
  simp [Schedule.needs]

theorem evaluationOrder_eq_ok {g : Graph} {ix : Index} {bound roots : List String}
    {order : List Node} (h : evaluationOrder g ix bound roots = .ok order) :
    ∀ n ∈ order, n ∈ g.nodes := by
  obtain ⟨p, -, h₁⟩ := bind_eq_ok h
  cases h₁
  intro n hn
  obtain ⟨name, -, hnode⟩ := List.mem_filterMap.1 hn
  exact (Graph.node?_eq_some hnode).1

/-- What has been found and made on the way to a plan. -/
theorem UnitPlan.steps_of_make {g : Graph} {ix : Index} {storage : StorageLayout}
    {r : UnitRequest} {plan : UnitPlan} (h : UnitPlan.make g ix storage r = .ok plan) :
    plan.version = g.version ∧ ¬ r.outputs.isEmpty = true ∧
      r.outputs.mapM (resolveOutput g ix) = .ok plan.outputs ∧
      RecordLayout.forPorts plan.outputs = .ok plan.outputLayout ∧
      Bindings.make g ix r.graphInputs = .ok plan.bindings ∧
      RecordLayout.forPorts plan.bindings.ports = .ok plan.inputLayout ∧
      evaluationOrder g ix plan.bindings.nodes (plan.outputs.map fun p => p.1.node) =
        .ok plan.order := by
  unfold UnitPlan.make at h
  simp only at h
  split at h
  · contradiction
  · rename_i hrequested
    split at h
    · contradiction
    · obtain ⟨outputs, houtputs, h₁⟩ := bind_eq_ok h
      obtain ⟨outputLayout, houtputLayout, h₂⟩ := bind_eq_ok h₁
      obtain ⟨bindings, hbindings, h₃⟩ := bind_eq_ok h₂
      obtain ⟨inputLayout, hinputLayout, h₄⟩ := bind_eq_ok h₃
      obtain ⟨order, horder, h₅⟩ := bind_eq_ok h₄
      cases h₅
      exact ⟨rfl, hrequested, houtputs, houtputLayout, hbindings, hinputLayout, horder⟩

/-- What is built from one graph describes one version, so a plan can be made when all its parts
can. -/
theorem UnitPlan.make_of_parts {g : Graph} {r : UnitRequest} {plan : UnitPlan}
    (hversion : plan.version = g.version) (hrequested : ¬ r.outputs.isEmpty = true)
    (houtputs : r.outputs.mapM (resolveOutput g (Index.build g)) = .ok plan.outputs)
    (houtputLayout : RecordLayout.forPorts plan.outputs = .ok plan.outputLayout)
    (hbindings : Bindings.make g (Index.build g) r.graphInputs = .ok plan.bindings)
    (hinputLayout : RecordLayout.forPorts plan.bindings.ports = .ok plan.inputLayout)
    (horder : evaluationOrder g (Index.build g) plan.bindings.nodes
      (plan.outputs.map fun p => p.1.node) = .ok plan.order) :
    UnitPlan.make g (Index.build g) (StorageLayout.build g (Index.build g)) r = .ok plan := by
  have hversions : ¬((Index.build g).version ≠ g.version ∨
      (StorageLayout.build g (Index.build g)).version ≠ g.version) := by
    rintro (h | h) <;> exact h rfl
  unfold UnitPlan.make
  simp only [if_neg hversions, if_neg hrequested, bind, Except.bind, houtputs, houtputLayout,
    hbindings, hinputLayout, horder]
  rw [← hversion]
  rfl

end Dataflow
