import Dataflow.Proofs.Graph.Structure
import Dataflow.Proofs.Index.Chains

/-!
# Graphs of one structure

Two graphs of one structure and version may differ in authored values and in the order of their
links. They have the same ports, their reroutes lead to the same outputs, and the data of each
input has the same origin in both. Setting an authored value leads to such a graph.
-/

namespace Dataflow

/-- The ports that a kind declares, by role. -/
def Kind.specs (k : Kind) : PortRole → List PortSpec
  | .input => k.inputs
  | .output => k.outputs

theorem Node.Declared.specs_eq {n : Node} (hn : n.Declared) (role : PortRole) :
    (n.ports role).map Port.spec = n.kind.specs role := by
  cases role with
  | input => exact hn.inputs
  | output => exact hn.outputs

theorem Node.Declared.spec_port? {n : Node} (hn : n.Declared) (role : PortRole)
    (identifier : String) :
    (n.port? role identifier).map Port.spec =
      (n.kind.specs role).find? fun s => s.identifier == identifier := by
  rw [← hn.specs_eq, List.find?_map]
  rfl

namespace Graph

variable {g h k : Graph} {ref port : PortRef} {role : PortRole} {name : String}

/-! ## Structure -/

theorem SameStructure.refl (g : Graph) : g.SameStructure g := ⟨rfl, rfl, fun _ => rfl⟩

theorem SameStructure.symm (hgh : g.SameStructure h) : h.SameStructure g :=
  ⟨hgh.name.symm, hgh.nodes.symm, fun target => (hgh.links target).symm⟩

theorem SameStructure.trans (hgh : g.SameStructure h) (hhk : h.SameStructure k) :
    g.SameStructure k :=
  ⟨hgh.name.trans hhk.name, hgh.nodes.trans hhk.nodes,
    fun target => (hgh.links target).trans (hhk.links target)⟩

theorem identity_node? (g : Graph) (name : String) :
    (g.node? name).map Node.identity =
      (g.nodes.map Node.identity).find? fun id => id.1 == name := by
  rw [List.find?_map]
  rfl

theorem rerouteNames_eq (g : Graph) : g.rerouteNames =
    ((g.nodes.map Node.identity).filter fun id => id.2.isReroute).map Prod.fst := by
  unfold rerouteNames
  rw [List.filter_map, List.map_map]
  rfl

theorem SameStructure.rerouteNames_eq (hgh : g.SameStructure h) :
    g.rerouteNames = h.rerouteNames := by
  rw [Graph.rerouteNames_eq, Graph.rerouteNames_eq, hgh.nodes]

theorem SameStructure.exists_node (hgh : g.SameStructure h) {n : Node}
    (hn : g.node? name = some n) : ∃ m, h.node? name = some m ∧ m.identity = n.identity := by
  have hidentity := identity_node? h name
  rw [← hgh.nodes, ← identity_node?, hn, Option.map_some] at hidentity
  exact Option.map_eq_some_iff.1 hidentity

/-! ## Ports and reroutes -/

/-- Two graphs with the same nodes, each node with the ports that its kind declares, have the
same ports. -/
theorem SameStructure.exists_port (hgh : g.SameStructure h) (hg : ∀ n ∈ g.nodes, n.Declared)
    (hh : ∀ n ∈ h.nodes, n.Declared) {p : Port} (hp : g.port ref role = .ok p) :
    ∃ q, h.port ref role = .ok q ∧ q.spec = p.spec := by
  obtain ⟨n, hn, hport⟩ := port_eq_ok_iff.1 hp
  obtain ⟨m, hm, hidentity⟩ := hgh.exists_node hn
  have hspec := (hg n (node?_eq_some hn).1).spec_port? role ref.port
  have hkind : m.kind = n.kind := (Prod.mk.inj hidentity).2
  rw [hport, Option.map_some, ← hkind,
    ← (hh m (node?_eq_some hm).1).spec_port? role ref.port] at hspec
  obtain ⟨q, hq, hqp⟩ := Option.map_eq_some_iff.1 hspec.symm
  exact ⟨q, port_eq_ok_iff.2 ⟨m, hm, hq⟩, hqp⟩

theorem rerouteOrigin?_eq (hg : ∀ n ∈ g.nodes, n.Declared) (name : String) :
    g.rerouteOrigin? name = ((g.node? name).map Node.identity).bind fun id =>
      id.2.inputs.head?.bind fun s => g.linkOrigin? ⟨id.1, s.identifier⟩ := by
  unfold rerouteOrigin?
  cases hn : g.node? name with
  | none => rfl
  | some n =>
      have hinputs := (hg n (node?_eq_some hn).1).inputs
      simp only [Option.bind_eq_bind, Option.bind_some, Option.map_some]
      change _ = n.kind.inputs.head?.bind fun s => g.linkOrigin? ⟨n.name, s.identifier⟩
      rw [← hinputs, List.head?_map]
      cases n.inputs.head? <;> rfl

theorem SameStructure.rerouteOrigin?_eq (hgh : g.SameStructure h)
    (hg : ∀ n ∈ g.nodes, n.Declared) (hh : ∀ n ∈ h.nodes, n.Declared) (name : String) :
    g.rerouteOrigin? name = h.rerouteOrigin? name := by
  rw [Graph.rerouteOrigin?_eq hg, Graph.rerouteOrigin?_eq hh, identity_node?, identity_node?,
    hgh.nodes]
  simp only [hgh.links]

theorem SameStructure.leadsIn (hgh : g.SameStructure h) (hg : ∀ n ∈ g.nodes, n.Declared)
    (hh : ∀ n ∈ h.nodes, n.Declared) {count : Nat} {source : PortRef}
    (hchain : g.LeadsIn count port source) : h.LeadsIn count port source := by
  induction hchain with
  | here hport => exact .here (hgh.rerouteNames_eq ▸ hport)
  | up hreroute horigin _ ih =>
      rw [hgh.rerouteOrigin?_eq hg hh] at horigin
      exact .up (hgh.rerouteNames_eq ▸ hreroute) horigin ih

theorem SameStructure.hasOrigin (hgh : g.SameStructure h) (hg : ∀ n ∈ g.nodes, n.Declared)
    (hh : ∀ n ∈ h.nodes, n.Declared) {source : PortRef} (horigin : g.HasOrigin port source) :
    h.HasOrigin port source := by
  obtain ⟨hcomputing, origin, hlink, count, hchain⟩ := horigin
  exact ⟨hgh.rerouteNames_eq ▸ hcomputing, origin, hgh.links port ▸ hlink, count,
    hgh.leadsIn hg hh hchain⟩

/-- Data comes from the same outputs. -/
theorem SameStructure.resolve?_eq (hgh : g.SameStructure h) (hg : ∀ n ∈ g.nodes, n.Declared)
    (hh : ∀ n ∈ h.nodes, n.Declared) (target : PortRef) :
    g.resolve? target = h.resolve? target := by
  apply Option.ext
  intro source
  rw [resolve?_eq_some_iff, resolve?_eq_some_iff]
  exact ⟨hgh.hasOrigin hg hh, hgh.symm.hasOrigin hh hg⟩

/-! ## Agreement -/

/-- Two graphs made by editing with one structure and one version. -/
structure Agrees (g h : Graph) : Prop where
  left : g.Reachable
  right : h.Reachable
  version : g.version = h.version
  same : g.SameStructure h

theorem Agrees.refl (hg : g.Reachable) : g.Agrees g := ⟨hg, hg, rfl, .refl g⟩

theorem Agrees.symm (hgh : g.Agrees h) : h.Agrees g :=
  ⟨hgh.right, hgh.left, hgh.version.symm, hgh.same.symm⟩

theorem Agrees.trans (hgh : g.Agrees h) (hhk : h.Agrees k) : g.Agrees k :=
  ⟨hgh.left, hhk.right, hgh.version.trans hhk.version, hgh.same.trans hhk.same⟩

theorem Reachable.agrees_remember (hg : g.Reachable) : g.remember.Agrees g :=
  ⟨.remember hg, hg, rfl, rfl, rfl, fun _ => rfl⟩

theorem Agrees.resolve?_eq (hgh : g.Agrees h) (target : PortRef) :
    g.resolve? target = h.resolve? target :=
  hgh.same.resolve?_eq hgh.left.declared hgh.right.declared target

/-! ## Authored values -/

/-- The value that was authored for an input. -/
def authored? (g : Graph) (port : PortRef) : Option Value :=
  match g.port port .input with
  | .error _ => none
  | .ok p => p.value

theorem setInputValue_eq_ok_iff {value : Value} : (∃ g', g.setInputValue ref value = .ok g') ↔
    ∃ p, g.port ref .input = .ok p ∧ value.dataType = p.dataType := by
  unfold setInputValue
  cases g.port ref .input with
  | error e => simp [bind, Except.bind]
  | ok p =>
      by_cases hvalue : value.dataType = p.dataType
      · simp [bind, Except.bind, pure, Except.pure, hvalue]
      · simp [bind, Except.bind, hvalue, throw, throwThe, MonadExceptOf.throw]

theorem sameStructure_setInputValue {g' : Graph} {value : Value}
    (hset : g.setInputValue ref value = .ok g') : g'.SameStructure g := by
  rw [setInputValue_eq_ok hset]
  refine ⟨rfl, ?_, fun _ => rfl⟩
  rw [List.map_map]
  apply List.map_congr_left
  intro n _
  simp only [Function.comp_apply]
  split <;> rfl

theorem authored?_eq (g : Graph) (port : PortRef) : g.authored? port =
    (g.node? port.node).bind fun n => (n.port? .input port.port).bind Port.value := by
  unfold authored? Graph.port
  cases g.node? port.node with
  | none => rfl
  | some n =>
      cases hp : n.port? .input port.port with
      | none => simp [hp]
      | some p => simp [hp]

theorem node?_setInputValue {g' : Graph} {value : Value}
    (hset : g.setInputValue ref value = .ok g') (name : String) :
    g'.node? name = (g.node? name).map fun n =>
      if n.name = ref.node then n.setInput ref.port value else n := by
  have hname : ∀ n : Node,
      (if n.name = ref.node then n.setInput ref.port value else n).name = n.name := by
    intro n
    split <;> rfl
  rw [setInputValue_eq_ok hset, node?, List.find?_map]
  simp only [Function.comp_def, hname]
  rfl

/-- The value is the one that was set, where it was set. -/
theorem value_setInput (n : Node) (identifier name : String) (value : Value) :
    ((n.setInput identifier value).port? .input name).bind Port.value =
      if name = identifier then (n.port? .input name).map fun _ => value
      else (n.port? .input name).bind Port.value := by
  have hid : ∀ q : Port, (if q.identifier = identifier then { q with value := some value }
      else q).identifier = q.identifier := by
    intro q
    split <;> rfl
  have hfind : (n.setInput identifier value).port? .input name =
      (n.port? .input name).map fun q =>
        if q.identifier = identifier then { q with value := some value } else q := by
    unfold Node.port?
    change (n.inputs.map _).find? _ = _
    rw [List.find?_map]
    simp only [Function.comp_def, hid]
    rfl
  rw [hfind]
  cases hp : n.port? .input name with
  | none => simp
  | some p =>
      have hname := (Node.port?_eq_some hp).2
      by_cases h : name = identifier <;> simp [hname, h]

theorem authored?_setInputValue {g' : Graph} {value : Value}
    (hset : g.setInputValue ref value = .ok g') (port : PortRef) :
    g'.authored? port = if port = ref then some value else g.authored? port := by
  rw [authored?_eq, node?_setInputValue hset, authored?_eq]
  by_cases hport : port = ref
  · obtain ⟨p, hp, -⟩ := setInputValue_eq_ok_iff.1 ⟨g', hset⟩
    obtain ⟨n, hn, hinput⟩ := port_eq_ok_iff.1 hp
    rw [if_pos hport, hport, hn, Option.map_some, Option.bind_some,
      if_pos (node?_eq_some hn).2, value_setInput, if_pos rfl, hinput]
    rfl
  · rw [if_neg hport]
    cases hn : g.node? port.node with
    | none => rfl
    | some n =>
        rw [Option.map_some, Option.bind_some, Option.bind_some]
        by_cases hname : n.name = ref.node
        · have hne : port.port ≠ ref.port := by
            intro h
            rw [(node?_eq_some hn).2] at hname
            exact hport (congrArg₂ PortRef.mk hname h)
          rw [if_pos hname, value_setInput, if_neg hne]
        · rw [if_neg hname]

theorem agrees_setInputValue (hg : g.Reachable) {g' : Graph} {value : Value}
    (hset : g.setInputValue ref value = .ok g') : g'.Agrees g := by
  have hg' : g'.Reachable := .setInputValue hg hset
  refine ⟨hg', hg, ?_, sameStructure_setInputValue hset⟩
  rw [hg'.version_eq, hg.version_eq, encoding_setInputValue hset]

end Graph

end Dataflow
