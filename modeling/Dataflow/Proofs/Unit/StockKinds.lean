import Dataflow.Proofs.Graph.WellFormed
import Dataflow.Proofs.Unit.Carried

/-!
# Stock kinds emit code that passes the type check

Only the code of host kinds can fail the type check: a host kind chooses its ports and its
computation freely, while the ports of a stock kind suit its computation. What is expected of a
host kind is `Graph.KeepsContract`.
-/

namespace Dataflow

open Ir

namespace Ir

variable (f : Function) (id : Nat) (name : String)

theorem bodyWellTyped_rename (env : TypeEnv) (body : List Instr) :
    bodyWellTyped { f with id, name } env body = bodyWellTyped f env body := by
  induction body generalizing env with
  | nil => rfl
  | cons i body ih =>
      unfold bodyWellTyped
      rw [ih]
      rfl

theorem blocksWellTyped_rename (env : TypeEnv) (blocks : List Block) :
    blocksWellTyped { f with id, name } env blocks = blocksWellTyped f env blocks := by
  induction blocks generalizing env with
  | nil => rfl
  | cons b blocks ih =>
      unfold blocksWellTyped
      simp only [bodyWellTyped_rename, ih]
      rfl

/-- The type check looks at neither the id nor the name of a function. -/
theorem Function.wellTyped_rename : { f with id, name }.wellTyped = f.wellTyped := by
  unfold wellTyped
  rw [blocksWellTyped_rename]
  rfl

end Ir

namespace Node

/-- Every function made for the node passes the type check. -/
def EmitsChecked (n : Node) : Prop := ∀ f, n.IsFunction f → f.wellTyped = true

/-- If one function of a node passes the check, so do all. -/
theorem IsFunction.emitsChecked {n : Node} {f : Function} (hf : n.IsFunction f)
    (htyped : f.wellTyped = true) : n.EmitsChecked := by
  rintro k ⟨id', name', inputs', outputs', hinputs', houtputs', hk⟩
  obtain ⟨id, name, inputs, outputs, hinputs, houtputs, hfunction⟩ := hf
  rw [hinputs] at hinputs'
  cases hinputs'
  rw [houtputs] at houtputs'
  cases houtputs'
  rw [n.function_rename id id' name name', hfunction] at hk
  cases hk
  exact (f.wellTyped_rename id' name').trans htyped

theorem portTypes_natives {n : Node} {role : PortRole} {types : List DataType}
    {natives : List Ty} (htypes : (n.ports role).map Port.dataType = types)
    (h : n.portTypes role = .ok natives) : types.mapM DataType.native = some natives := by
  subst htypes
  have hports := forall₂_of_mapM_eq_ok h
  clear h
  generalize n.ports role = ports at hports
  induction hports with
  | nil => rfl
  | cons hport _ ih =>
      rw [List.map_cons, List.mapM_cons, nativeType_eq_ok hport, ih]
      rfl

theorem wellTyped_of_stock {n : Node} (hkind : ∀ k, n.kind ≠ .host k) {id : Nat} {name : String}
    {inputs outputs : List Ty}
    (hin : (n.kind.inputs.map PortSpec.dataType).mapM DataType.native = some inputs)
    (hout : (n.kind.outputs.map PortSpec.dataType).mapM DataType.native = some outputs)
    {f : Function} (h : n.function id name inputs outputs = .ok f) : f.wellTyped = true := by
  obtain ⟨nodeName, kind, inPorts, outPorts⟩ := n
  -- With its type fixed, each stock kind has one function, and the check runs on it.
  cases kind with
  | host k => exact absurd rfl (hkind k)
  | graphInput specs => cases h
  | constant value => cases value <;> cases hin <;> cases hout <;> cases h <;> rfl
  | reroute ty => cases ty <;> cases hin <;> cases hout <;> cases h <;> rfl
  | math op ty =>
      cases ty <;> cases hin <;> cases hout <;> cases op <;> cases h
      -- Division is long: the check runs on it once its code is written out.
      all_goals
        simp only [EmitSite.intMath, EmitSite.checkedDivision, EmitSite.straight,
          List.mapIdx_cons, List.mapIdx_nil, List.cons_append, List.nil_append]
        rfl
  | compare op ty => cases ty <;> cases hin <;> cases hout <;> cases op <;> cases h <;> rfl
  | select ty => cases ty <;> cases hin <;> cases hout <;> cases h <;> rfl
  | clamp ty => cases ty <;> cases hin <;> cases hout <;> cases h <;> rfl

theorem WellFormed.emitsChecked {n : Node} (hn : n.WellFormed)
    (hhost : ∀ k, n.kind = .host k → n.EmitsChecked) : n.EmitsChecked := by
  by_cases hkind : ∃ k, n.kind = .host k
  · obtain ⟨k, hk⟩ := hkind
    exact hhost k hk
  · rintro f ⟨id, name, inputs, outputs, hin, hout, hf⟩
    have hin' : (n.ports .input).map Port.dataType = _ := hn.inputs_typed
    have hout' : (n.ports .output).map Port.dataType = _ := hn.outputs_typed
    exact wellTyped_of_stock (not_exists.1 hkind) (portTypes_natives hin' hin)
      (portTypes_natives hout' hout) hf

/-- Stock kinds have no code of their own. -/
theorem computation_ne_code {n : Node} (hkind : ∀ k, n.kind ≠ .host k) (own : Fragment) :
    n.kind.computation ≠ .code own := by
  intro hown
  cases hk : n.kind with
  | host k => exact absurd hk (hkind k)
  | _ =>
      rw [hk] at hown
      contradiction

end Node

/-- What is expected of a host kind: that its code passes the type check also where nothing
verifies that, and that it has results on the values of the inputs. -/
structure Graph.KeepsContract (g : Graph) (supplied : List (PortRef × Value))
    (cells : PortRef → Value) (n : Node) (verify : Bool) : Prop where
  checked : verify = false → n.EmitsChecked
  ends : g.Ends supplied cells n

/-- Nodes of stock kinds that have a function fulfil what is expected of host kinds. -/
theorem Node.WellFormed.keepsContract {n : Node} (hn : n.WellFormed) {f : Function}
    (hf : n.IsFunction f) {g : Graph} {supplied : List (PortRef × Value)} {cells : PortRef → Value}
    {verify : Bool} (hhost : ∀ k, n.kind = .host k → g.KeepsContract supplied cells n verify) :
    g.KeepsContract supplied cells n verify := by
  by_cases hkind : ∃ k, n.kind = .host k
  · obtain ⟨k, hk⟩ := hkind
    exact hhost k hk
  · have hchecked := hn.emitsChecked fun k hk => absurd ⟨k, hk⟩ hkind
    exact ⟨fun _ => hchecked, Graph.ends_of_checked ⟨f, hf, hchecked f hf⟩ fun own _ hown =>
      absurd hown (Node.computation_ne_code (not_exists.1 hkind) own)⟩

end Dataflow
