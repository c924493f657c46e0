import Dataflow.Graph.Version
import Mathlib.Data.List.Nodup
import Mathlib.Data.List.Basic

/-!
# Well-formed graphs

The invariant that every editing operation keeps. Names and identifiers are unique, a
link leads from an output to an input of the same type on another node, and inputs hold
a value of their own type. `Graph.Reachable.wellFormed` derives it for every graph that
the operations can make.
-/

namespace Dataflow

/-- The graphs that editing makes. Asking for the version leaves the token behind, so it
counts as an edit here. -/
inductive Graph.Reachable : Graph → Prop
  | empty (name : String) : Reachable (.empty name)
  | addNode {g g' : Graph} {name : String} {kind : Kind} {node : Node} :
      Reachable g → g.addNode name kind = .ok (node, g') → Reachable g'
  | removeNode {g g' : Graph} {name : String} {node : Node} :
      Reachable g → g.removeNode name = .ok (node, g') → Reachable g'
  | link {g g' : Graph} {origin target : PortRef} {replaced : Option PortRef} :
      Reachable g → g.link origin target = .ok (replaced, g') → Reachable g'
  | unlink {g : Graph} (target : PortRef) : Reachable g → Reachable (g.unlink target).2
  | setInputValue {g g' : Graph} {ref : PortRef} {value : Value} :
      Reachable g → g.setInputValue ref value = .ok g' → Reachable g'
  | remember {g : Graph} : Reachable g → Reachable g.remember

structure Node.WellFormed (n : Node) : Prop where
  inputs_nodup : (n.inputs.map Port.identifier).Nodup
  outputs_nodup : (n.outputs.map Port.identifier).Nodup
  inputs_typed : n.inputs.map Port.dataType = n.kind.inputs.map PortSpec.dataType
  outputs_typed : n.outputs.map Port.dataType = n.kind.outputs.map PortSpec.dataType
  inputs_hold : ∀ p ∈ n.inputs,
    p.value.map Value.dataType = p.dataType.zero.map fun _ => p.dataType
  outputs_hold : ∀ p ∈ n.outputs, p.value = none

/-- A link joins an output and an input of one type on two nodes. -/
structure Link.WellFormed (g : Graph) (l : Link) : Prop where
  typed : ∃ source sink, g.port l.origin .output = .ok source ∧
    g.port l.target .input = .ok sink ∧ source.dataType = sink.dataType
  apart : l.origin.node ≠ l.target.node

structure Graph.WellFormed (g : Graph) : Prop where
  names_nodup : (g.nodes.map Node.name).Nodup
  nodes_wellFormed : ∀ n ∈ g.nodes, n.WellFormed
  targets_nodup : (g.links.map Link.target).Nodup
  links_wellFormed : ∀ l ∈ g.links, l.WellFormed g

/-! ## Nodes by name and ports by address -/

namespace Graph

variable {g : Graph}

theorem node?_eq_some {name : String} {n : Node} (h : g.node? name = some n) :
    n ∈ g.nodes ∧ n.name = name := by
  unfold node? at h
  exact ⟨List.mem_of_find?_eq_some h, by simpa using List.find?_some h⟩

theorem node?_isSome_iff {name : String} :
    (g.node? name).isSome ↔ name ∈ g.nodes.map Node.name := by
  simp [node?, List.find?_isSome]

theorem eq_of_name_eq (hnames : (g.nodes.map Node.name).Nodup) {m n : Node}
    (hm : m ∈ g.nodes) (hn : n ∈ g.nodes) (h : m.name = n.name) : m = n :=
  List.inj_on_of_nodup_map hnames hm hn h

theorem node?_of_mem (hnames : (g.nodes.map Node.name).Nodup) {n : Node} (hn : n ∈ g.nodes) :
    g.node? n.name = some n := by
  obtain ⟨m, hm⟩ := Option.isSome_iff_exists.1
    (node?_isSome_iff.2 (List.mem_map_of_mem hn) : (g.node? n.name).isSome)
  obtain ⟨hmem, hname⟩ := node?_eq_some hm
  rw [hm, eq_of_name_eq hnames hmem hn hname]

theorem port_eq_ok_iff {ref : PortRef} {role : PortRole} {p : Port} :
    g.port ref role = .ok p ↔
      ∃ n, g.node? ref.node = some n ∧ n.port? role ref.port = some p := by
  unfold port
  cases hn : g.node? ref.node with
  | none => simp
  | some n =>
      cases hp : n.port? role ref.port <;> simp [hp]

end Graph

namespace Node

variable {n : Node}

theorem port?_eq_some {role : PortRole} {identifier : String} {p : Port}
    (h : n.port? role identifier = some p) :
    p ∈ n.ports role ∧ p.identifier = identifier := by
  unfold port? at h
  exact ⟨List.mem_of_find?_eq_some h, by simpa using List.find?_some h⟩

theorem WellFormed.ports_nodup (hn : n.WellFormed) (role : PortRole) :
    ((n.ports role).map Port.identifier).Nodup := by
  cases role with
  | input => exact hn.inputs_nodup
  | output => exact hn.outputs_nodup

theorem WellFormed.port?_of_mem (hn : n.WellFormed) {role : PortRole} {p : Port}
    (hp : p ∈ n.ports role) : n.port? role p.identifier = some p := by
  have hsome : (n.port? role p.identifier).isSome := by
    unfold port?
    rw [List.find?_isSome]
    exact ⟨p, hp, by simp⟩
  obtain ⟨q, hq⟩ := Option.isSome_iff_exists.1 hsome
  obtain ⟨hmem, hid⟩ := port?_eq_some hq
  rw [hq, List.inj_on_of_nodup_map (hn.ports_nodup role) hmem hp hid]

end Node

theorem Graph.WellFormed.port_of_mem {g : Graph} (hg : g.WellFormed) {n : Node}
    (hn : n ∈ g.nodes) {role : PortRole} {p : Port} (hp : p ∈ n.ports role) :
    g.port (n.portRef p) role = .ok p := by
  rw [Graph.port_eq_ok_iff]
  exact ⟨n, Graph.node?_of_mem hg.names_nodup hn, (hg.nodes_wellFormed n hn).port?_of_mem hp⟩

/-! ## New nodes -/

theorem nodup_of_repeatedIdentifier?_eq_none {seen : List String} {specs : List PortSpec}
    (h : repeatedIdentifier? seen specs = none) :
    (specs.map PortSpec.identifier).Nodup ∧ ∀ s ∈ specs, s.identifier ∉ seen := by
  induction specs generalizing seen with
  | nil => simp
  | cons spec specs ih =>
      unfold repeatedIdentifier? at h
      split at h
      · contradiction
      · rename_i hnew
        obtain ⟨hnodup, hfresh⟩ := ih h
        refine ⟨?_, ?_⟩
        · rw [List.map_cons, List.nodup_cons]
          refine ⟨?_, hnodup⟩
          intro hmem
          obtain ⟨s, hs, heq⟩ := List.mem_map.1 hmem
          exact hfresh s hs (by simp [heq])
        · intro s hs
          rcases List.mem_cons.1 hs with rfl | hs
          · simpa using hnew
          · exact fun hseen => hfresh s hs (List.mem_cons_of_mem _ hseen)

theorem DataType.zero_dataType {ty : DataType} {v : Value} (h : ty.zero = some v) :
    v.dataType = ty := by
  cases ty <;> simp only [DataType.zero, Option.some.injEq, reduceCtorEq] at h <;> subst h <;> rfl

theorem Node.ofKind_eq_ok {name : String} {kind : Kind} {n : Node}
    (h : Node.ofKind name kind = .ok n) : n.name = name ∧ n.kind = kind ∧ n.WellFormed := by
  unfold Node.ofKind at h
  split at h
  · contradiction
  · rename_i hin
    split at h
    · contradiction
    · rename_i hout
      cases h
      refine ⟨rfl, rfl, ?_, ?_, ?_, ?_, ?_, ?_⟩
      · simpa [Function.comp_def, Port.ofSpec] using (nodup_of_repeatedIdentifier?_eq_none hin).1
      · simpa [Function.comp_def, Port.ofSpec] using (nodup_of_repeatedIdentifier?_eq_none hout).1
      · rw [List.map_map]
        rfl
      · rw [List.map_map]
        rfl
      · intro p hp
        obtain ⟨spec, -, rfl⟩ := List.mem_map.1 hp
        cases hzero : spec.dataType.zero with
        | none => simp [Port.ofSpec, hzero]
        | some v => simp [Port.ofSpec, hzero, DataType.zero_dataType hzero]
      · intro p hp
        obtain ⟨spec, -, rfl⟩ := List.mem_map.1 hp
        rfl

/-! ## Every edit keeps a graph well formed -/

/-- A link stays well formed while the ports of its two nodes keep their types. -/
theorem Link.WellFormed.transfer {g g' : Graph} {l : Link} (hl : l.WellFormed g)
    (hports : ∀ ref role p, ref.node = l.origin.node ∨ ref.node = l.target.node →
      g.port ref role = .ok p → ∃ q, g'.port ref role = .ok q ∧ q.dataType = p.dataType) :
    l.WellFormed g' := by
  obtain ⟨source, sink, hsource, hsink, htype⟩ := hl.typed
  obtain ⟨source', hsource', hs⟩ := hports _ _ _ (Or.inl rfl) hsource
  obtain ⟨sink', hsink', ht⟩ := hports _ _ _ (Or.inr rfl) hsink
  exact ⟨⟨source', sink', hsource', hsink', by rw [hs, ht, htype]⟩, hl.apart⟩

namespace Graph

variable {g g' : Graph}

theorem WellFormed.addNode (hg : g.WellFormed) {name : String} {kind : Kind} {node : Node}
    (h : g.addNode name kind = .ok (node, g')) : g'.WellFormed := by
  unfold Graph.addNode at h
  split at h
  · contradiction
  · rename_i hnew
    cases hk : Node.ofKind name kind with
    | error e => simp [hk, bind, Except.bind] at h
    | ok n =>
        simp only [hk, bind, Except.bind, pure, Except.pure, Except.ok.injEq,
          Prod.mk.injEq] at h
        obtain ⟨rfl, rfl⟩ := h
        obtain ⟨hname, -, hn⟩ := Node.ofKind_eq_ok hk
        have hfresh : n.name ∉ g.nodes.map Node.name := by
          rw [hname, ← node?_isSome_iff]
          exact hnew
        refine ⟨?_, ?_, hg.targets_nodup, ?_⟩
        · rw [List.map_append, List.map_singleton, List.nodup_append]
          refine ⟨hg.names_nodup, List.nodup_singleton _, ?_⟩
          intro a ha b hb hab
          rw [List.mem_singleton] at hb
          exact hfresh (by rw [← hb, ← hab]; exact ha)
        · intro m hm
          rcases List.mem_append.1 hm with hm | hm
          · exact hg.nodes_wellFormed m hm
          · rw [List.mem_singleton.1 hm]
            exact hn
        · intro l hl
          apply (hg.links_wellFormed l hl).transfer
          intro ref role p _ hp
          obtain ⟨m, hm, hport⟩ := port_eq_ok_iff.1 hp
          refine ⟨p, port_eq_ok_iff.2 ⟨m, ?_, hport⟩, rfl⟩
          unfold node? at hm ⊢
          rw [List.find?_append, hm]
          rfl

theorem WellFormed.removeNode (hg : g.WellFormed) {name : String} {node : Node}
    (h : g.removeNode name = .ok (node, g')) : g'.WellFormed := by
  unfold Graph.removeNode at h
  split at h
  · contradiction
  · cases h
    refine ⟨?_, ?_, ?_, ?_⟩
    · exact hg.names_nodup.sublist (List.filter_sublist.map _)
    · exact fun m hm => hg.nodes_wellFormed m (List.mem_of_mem_filter hm)
    · exact hg.targets_nodup.sublist (List.filter_sublist.map _)
    · intro l hl
      obtain ⟨hl, hkept⟩ := List.mem_filter.1 hl
      simp only [bne_iff_ne, Bool.and_eq_true] at hkept
      apply (hg.links_wellFormed l hl).transfer
      intro ref role p href hp
      have hne : ref.node ≠ name := by
        rcases href with h | h <;> rw [h]
        · exact hkept.2
        · exact hkept.1
      obtain ⟨m, hm, hport⟩ := port_eq_ok_iff.1 hp
      refine ⟨p, port_eq_ok_iff.2 ⟨m, ?_, hport⟩, rfl⟩
      unfold node? at hm ⊢
      rw [List.find?_filter, ← hm]
      congr 1
      funext k
      by_cases hk : k.name = ref.node <;> simp [hk, hne]

theorem mem_insertLink {link l : Link} {links : List Link}
    (h : l ∈ insertLink link links) : l = link ∨ l ∈ links := by
  induction links with
  | nil => exact Or.inl (List.mem_singleton.1 h)
  | cons k ks ih =>
      unfold insertLink at h
      split at h
      · rcases List.mem_cons.1 h with h | h
        · exact Or.inl h
        · exact Or.inr (List.mem_cons_of_mem _ h)
      · rcases List.mem_cons.1 h with h | h
        · exact Or.inr (by rw [h]; exact List.mem_cons_self)
        · exact (ih h).imp_right (List.mem_cons_of_mem _)

theorem nodup_insertLink (link : Link) {links : List Link}
    (h : (links.map Link.target).Nodup) : ((insertLink link links).map Link.target).Nodup := by
  induction links with
  | nil => simp [insertLink]
  | cons k ks ih =>
      rw [List.map_cons, List.nodup_cons] at h
      unfold insertLink
      split
      · rename_i heq
        rw [List.map_cons, List.nodup_cons, ← heq]
        exact h
      · rename_i hne
        rw [List.map_cons, List.nodup_cons]
        refine ⟨?_, ih h.2⟩
        intro hmem
        obtain ⟨l, hl, htarget⟩ := List.mem_map.1 hmem
        rcases mem_insertLink hl with rfl | hl
        · exact hne htarget.symm
        · exact h.1 (List.mem_map.2 ⟨l, hl, htarget⟩)

theorem WellFormed.link (hg : g.WellFormed) {origin target : PortRef}
    {replaced : Option PortRef} (h : g.link origin target = .ok (replaced, g')) :
    g'.WellFormed := by
  unfold Graph.link at h
  cases hsource : g.port origin .output with
  | error e => simp [hsource, bind, Except.bind] at h
  | ok source =>
      cases hsink : g.port target .input with
      | error e => simp [hsource, hsink, bind, Except.bind] at h
      | ok sink =>
          simp only [hsource, hsink, bind, Except.bind, pure, Except.pure] at h
          split at h
          · contradiction
          · rename_i htype
            split at h
            · contradiction
            · rename_i hapart
              cases h
              refine ⟨hg.names_nodup, hg.nodes_wellFormed,
                nodup_insertLink _ hg.targets_nodup, ?_⟩
              intro l hl
              rcases mem_insertLink hl with rfl | hl
              · exact ⟨⟨source, sink, hsource, hsink, not_not.1 htype⟩, hapart⟩
              · exact (hg.links_wellFormed l hl).transfer fun _ _ p _ hp => ⟨p, hp, rfl⟩

theorem WellFormed.unlink (hg : g.WellFormed) (target : PortRef) :
    (g.unlink target).2.WellFormed := by
  unfold Graph.unlink
  split
  · exact hg
  · refine ⟨hg.names_nodup, hg.nodes_wellFormed, ?_, ?_⟩
    · exact hg.targets_nodup.sublist (List.filter_sublist.map _)
    · intro l hl
      exact (hg.links_wellFormed l (List.mem_of_mem_filter hl)).transfer
        fun _ _ p _ hp => ⟨p, hp, rfl⟩

end Graph

/-! ## Authored values -/

namespace Node

theorem setInput_identifiers (n : Node) (identifier : String) (value : Value) :
    (n.setInput identifier value).inputs.map Port.identifier =
      n.inputs.map Port.identifier := by
  rw [setInput, List.map_map]
  apply List.map_congr_left
  intro p _
  by_cases h : p.identifier = identifier <;> simp [h]

theorem setInput_dataTypes (n : Node) (identifier : String) (value : Value) :
    (n.setInput identifier value).inputs.map Port.dataType = n.inputs.map Port.dataType := by
  rw [setInput, List.map_map]
  apply List.map_congr_left
  intro p _
  by_cases h : p.identifier = identifier <;> simp [h]

/-- Setting a value leaves the identifiers and types of all ports as they are. -/
theorem port?_setInput {n : Node} {role : PortRole} {id : String} {p : Port}
    (h : n.port? role id = some p) (identifier : String) (value : Value) :
    ∃ q, (n.setInput identifier value).port? role id = some q ∧ q.dataType = p.dataType := by
  cases role with
  | output => exact ⟨p, h, rfl⟩
  | input =>
      unfold port? at h
      refine ⟨if p.identifier = identifier then { p with value := some value } else p, ?_, ?_⟩
      · unfold port?
        change List.find? _ (n.inputs.map _) = _
        rw [List.find?_map]
        have hcomp : ((fun q : Port => q.identifier == id) ∘ fun q : Port =>
            if q.identifier = identifier then { q with value := some value } else q) =
            fun q => q.identifier == id := by
          funext q
          by_cases hq : q.identifier = identifier <;> simp [hq]
        rw [hcomp]
        change Option.map _ ((n.ports .input).find? _) = _
        rw [h]
        rfl
      · split <;> rfl

theorem WellFormed.setInput {n : Node} (hn : n.WellFormed) {identifier : String}
    {value : Value} {port : Port} (hport : n.port? .input identifier = some port)
    (hvalue : value.dataType = port.dataType) : (n.setInput identifier value).WellFormed := by
  refine ⟨?_, hn.outputs_nodup, ?_, hn.outputs_typed, ?_, hn.outputs_hold⟩
  · rw [setInput_identifiers]
    exact hn.inputs_nodup
  · rw [setInput_dataTypes]
    exact hn.inputs_typed
  · intro p hp
    obtain ⟨q, hq, rfl⟩ := List.mem_map.1 hp
    by_cases hid : q.identifier = identifier
    · subst hid
      have hqp : q = port := by
        have hfound := hn.port?_of_mem (show q ∈ n.ports .input from hq)
        exact Option.some.inj (hfound.symm.trans hport)
      subst hqp
      have hzero : q.dataType.zero.isSome := by
        rw [← hvalue]
        cases value <;> rfl
      obtain ⟨z, hz⟩ := Option.isSome_iff_exists.1 hzero
      simp [hvalue, hz]
    · rw [if_neg hid]
      exact hn.inputs_hold q hq

end Node

namespace Graph

variable {g g' : Graph}

theorem WellFormed.setInputValue (hg : g.WellFormed) {ref : PortRef} {value : Value}
    (h : g.setInputValue ref value = .ok g') : g'.WellFormed := by
  unfold Graph.setInputValue at h
  cases hport : g.port ref .input with
  | error e => simp [hport, bind, Except.bind] at h
  | ok port =>
      simp only [hport, bind, Except.bind, pure, Except.pure] at h
      split at h
      · contradiction
      · rename_i hvalue
        cases h
        obtain ⟨owner, howner, hin⟩ := port_eq_ok_iff.1 hport
        have hnames : ∀ n : Node,
            (if n.name = ref.node then n.setInput ref.port value else n).name = n.name := by
          intro n
          split <;> rfl
        refine ⟨?_, ?_, hg.targets_nodup, ?_⟩
        · simpa [Function.comp_def, hnames] using hg.names_nodup
        · intro m hm
          obtain ⟨n, hn, rfl⟩ := List.mem_map.1 hm
          split
          · rename_i hname
            have hfound := node?_of_mem hg.names_nodup hn
            rw [hname, howner] at hfound
            cases hfound
            exact (hg.nodes_wellFormed _ hn).setInput hin (not_not.1 hvalue)
          · exact hg.nodes_wellFormed n hn
        · intro l hl
          apply (hg.links_wellFormed l hl).transfer
          intro at' role p _ hp
          obtain ⟨m, hm, hmp⟩ := port_eq_ok_iff.1 hp
          obtain ⟨q, hq, hqp⟩ : ∃ q, (if m.name = ref.node then m.setInput ref.port value
              else m).port? role at'.port = some q ∧ q.dataType = p.dataType := by
            split
            · exact Node.port?_setInput hmp _ _
            · exact ⟨p, hmp, rfl⟩
          refine ⟨q, port_eq_ok_iff.2 ⟨_, ?_, hq⟩, hqp⟩
          unfold node? at hm ⊢
          rw [List.find?_map]
          have hcomp : ((fun n : Node => n.name == at'.node) ∘ fun n : Node =>
              if n.name = ref.node then n.setInput ref.port value else n) =
              fun n => n.name == at'.node := by
            funext n
            simp [hnames n]
          rw [hcomp, hm]
          rfl

theorem Reachable.wellFormed (h : g.Reachable) : g.WellFormed := by
  induction h with
  | empty name => exact ⟨by simp [Graph.empty], by simp [Graph.empty], by simp [Graph.empty],
      by simp [Graph.empty]⟩
  | addNode _ hstep ih => exact ih.addNode hstep
  | removeNode _ hstep ih => exact ih.removeNode hstep
  | link _ hstep ih => exact ih.link hstep
  | unlink target _ ih => exact ih.unlink target
  | setInputValue _ hstep ih => exact ih.setInputValue hstep
  | remember _ ih =>
      exact ⟨ih.names_nodup, ih.nodes_wellFormed, ih.targets_nodup, fun l hl =>
        (ih.links_wellFormed l hl).transfer fun _ _ p _ hp => ⟨p, hp, rfl⟩⟩

end Graph

end Dataflow
