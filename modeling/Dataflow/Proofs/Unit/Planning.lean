import Dataflow.Proofs.Index.Chains
import Dataflow.Proofs.Schedule.PostOrder
import Dataflow.Proofs.Unit.Plan

/-!
# Which requests can be planned

A plan is made exactly for the requests that `Graph.Offers` describes: all outputs they name
exist, can be handed over and lead to a computing node, and bound nodes are designated whole. The
nodes of the plan are those that the requested outputs need, in the order of the schedule.
-/

namespace Dataflow

open Relation

/-! ## What a request asks for -/

/-- The values of the node come from the caller. -/
def UnitRequest.Binds (r : UnitRequest) (name : String) : Prop :=
  ∃ port ∈ r.graphInputs, port.node = name

namespace Graph

/-- To be computed, the first node needs data of the second one. -/
def Reads (g : Graph) (r : UnitRequest) (a b : String) : Prop :=
  ¬ r.Binds a ∧ ∃ target source, g.HasOrigin target source ∧ target.node = a ∧ source.node = b

/-- The request cannot be answered without the node. -/
def Needs (g : Graph) (r : UnitRequest) (name : String) : Prop :=
  ∃ port ∈ r.outputs, ∃ source, g.LeadsTo port source ∧ ReflTransGen (g.Reads r) source.node name

/-- The graph has an output at the address, of a type whose values can be handed over. -/
def HasNativeOutput (g : Graph) (port : PortRef) : Prop :=
  ∃ ty, g.HasOutput port ty ∧ ty ≠ .handle

/-- The ports that a request names are there and suit their purpose. -/
structure Offers (g : Graph) (r : UnitRequest) : Prop where
  requested : r.outputs ≠ []
  outputs : ∀ port ∈ r.outputs, g.HasNativeOutput port ∧ ∃ source, g.LeadsTo port source
  designated : ∀ port ∈ r.graphInputs, g.HasNativeOutput port ∧ port.node ∉ g.rerouteNames
  complete : ∀ n ∈ g.nodes, r.Binds n.name → ∀ p ∈ n.outputs, n.portRef p ∈ r.graphInputs

end Graph

/-! ## Lists of computations -/

theorem mapM_eq_ok_iff {ε α β : Type} {f : α → Except ε β} {xs : List α} {ys : List β} :
    xs.mapM f = .ok ys ↔ List.Forall₂ (fun x y => f x = .ok y) xs ys := by
  refine ⟨forall₂_of_mapM_eq_ok, ?_⟩
  intro h
  induction h with
  | nil => rfl
  | cons hfirst _ ih => rw [List.mapM_cons, hfirst, ih]; rfl

theorem exists_forall₂_iff {α β : Type} {R : α → β → Prop} {xs : List α} :
    (∃ ys, List.Forall₂ R xs ys) ↔ ∀ x ∈ xs, ∃ y, R x y := by
  induction xs with
  | nil => simp
  | cons x xs ih =>
      rw [List.forall_mem_cons, ← ih]
      constructor
      · rintro ⟨_, h⟩
        obtain ⟨y, ys, hy, hys, -⟩ := List.forall₂_cons_left_iff.1 h
        exact ⟨⟨y, hy⟩, ys, hys⟩
      · rintro ⟨⟨y, hy⟩, ys, hys⟩
        exact ⟨y :: ys, .cons hy hys⟩

theorem exists_mem_of_forall₂ {α β : Type} {R : α → β → Prop} {xs : List α} {ys : List β}
    (h : List.Forall₂ R xs ys) {y : β} (hy : y ∈ ys) : ∃ x ∈ xs, R x y := by
  obtain ⟨k, hk⟩ := List.getElem?_of_mem hy
  obtain ⟨x, hx, hxy⟩ := exists_of_forall₂ h hk
  exact ⟨x, List.mem_of_getElem? hx, hxy⟩

theorem forM_eq_ok_iff {ε α : Type} {f : α → Except ε Unit} {xs : List α} :
    xs.forM f = .ok () ↔ ∀ x ∈ xs, f x = .ok () := by
  induction xs with
  | nil => simp; rfl
  | cons x xs ih =>
      rw [List.forall_mem_cons, ← ih]
      change (f x >>= fun _ => xs.forM f) = .ok () ↔ _
      cases f x with
      | error e => simp [bind, Except.bind]
      | ok u => simp [bind, Except.bind]

/-! ## Native types -/

theorem DataType.exists_native_iff {ty : DataType} :
    (∃ native, ty.native = some native) ↔ ty ≠ .handle := by
  cases ty <;> simp [DataType.native]

theorem nativeType_eq_ok_iff {port : PortRef} {ty : DataType} {native : Ir.Ty} :
    nativeType port ty = .ok native ↔ ty.native = some native := by
  refine ⟨nativeType_eq_ok, ?_⟩
  intro h
  unfold nativeType
  rw [h]

theorem RecordLayout.extend_ok_iff {layout : RecordLayout} {types : List DataType} :
    (∃ packed, layout.extend types = .ok packed) ↔ ∀ ty ∈ types, ty ≠ .handle := by
  induction types generalizing layout with
  | nil => simp [extend]
  | cons ty types ih =>
      unfold extend
      cases hsize : ty.size with
      | none =>
          have hhandle : ty = .handle := by cases ty <;> first | rfl | contradiction
          simp [hhandle]
      | some size =>
          have hnative : ty ≠ .handle := by
            rintro rfl
            contradiction
          simp only [ih, List.forall_mem_cons, hnative, ne_eq, not_false_eq_true, true_and]

theorem RecordLayout.forPorts_ok_iff {ports : List TypedPort} :
    (∃ layout, RecordLayout.forPorts ports = .ok layout) ↔ ∀ p ∈ ports, p.2 ≠ .handle := by
  have htypes : (∀ p ∈ ports, p.2 ≠ .handle) ↔ ∀ ty ∈ ports.map Prod.snd, ty ≠ .handle := by
    rw [List.forall_mem_map]
  rw [htypes, ← @extend_ok_iff ⟨[], 0, 1⟩]
  unfold RecordLayout.forPorts ofTypes
  cases extend ⟨[], 0, 1⟩ (ports.map Prod.snd) with
  | error k => simp [bind, Except.bind]
  | ok packed => simp [bind, Except.bind, pure, Except.pure]

theorem RecordLayout.length_fields {ports : List TypedPort} {layout : RecordLayout}
    (h : RecordLayout.forPorts ports = .ok layout) : layout.fields.length = ports.length := by
  have hlength := congrArg List.length (ofTypes_eq_ok (forPorts_eq_ok h)).2
  rwa [List.length_map, List.length_map] at hlength

/-! ## Requested and designated outputs -/

variable {g : Graph} {r : UnitRequest} {port : PortRef}

theorem Graph.HasOutput.node_mem {ty : DataType} (h : g.HasOutput port ty) :
    port.node ∈ g.nodes.map Node.name := by
  obtain ⟨p, hp, -⟩ := h
  obtain ⟨n, hn, -⟩ := port_eq_ok_iff.1 hp
  exact node?_isSome_iff.1 (Option.isSome_iff_exists.2 ⟨n, hn⟩)

theorem outputType_eq_ok_iff {ty : DataType} :
    outputType g port = .ok ty ↔ g.HasOutput port ty := by
  refine ⟨outputType_eq_ok, ?_⟩
  rintro ⟨p, hp, rfl⟩
  unfold outputType
  rw [hp]

theorem resolveOutput_eq_ok_iff {source : PortRef} {ty : DataType} :
    resolveOutput g (Index.build g) port = .ok (source, ty) ↔
      g.HasOutput port ty ∧ ty ≠ .handle ∧ g.LeadsTo port source := by
  constructor
  · intro h
    obtain ⟨houtput, hnative, hsource⟩ := resolveOutput_eq_ok h
    exact ⟨houtput, DataType.exists_native_iff.1 (Option.isSome_iff_exists.1 hnative),
      Graph.resolveFrom?_eq_some_iff.1 hsource⟩
  · rintro ⟨houtput, hhandle, hsource⟩
    obtain ⟨native, hnative⟩ := DataType.exists_native_iff.2 hhandle
    have hfollow : followReroutes g (Index.build g) port (Index.build g).reroutes port =
        .ok source := by
      change followReroutes g (Index.build g) port g.rerouteNames port = _
      rw [followReroutes_build, Graph.resolveFrom?_eq_some_iff.2 hsource]
    unfold resolveOutput
    rw [outputType_eq_ok_iff.2 houtput]
    simp only [bind, Except.bind, nativeType_eq_ok_iff.2 hnative, hfollow]
    rfl

namespace Bindings

theorem designate_eq_ok_iff {typed : TypedPort} :
    designate g (Index.build g) port = .ok typed ↔
      typed.1 = port ∧ g.HasOutput port typed.2 ∧ port.node ∉ g.rerouteNames := by
  have hreroute : (Index.build g).isReroute port.node = true ↔ port.node ∈ g.rerouteNames :=
    List.contains_iff_mem
  unfold designate
  cases hty : outputType g port with
  | error e =>
      have hnone : ∀ ty, ¬ g.HasOutput port ty := by
        intro ty houtput
        rw [outputType_eq_ok_iff.2 houtput] at hty
        contradiction
      simp [bind, Except.bind, hnone]
  | ok ty =>
      have houtput := outputType_eq_ok_iff.1 hty
      simp only [bind, Except.bind]
      split
      · rename_i hmem
        have hmem' := hreroute.1 hmem
        simp [throw, throwThe, MonadExceptOf.throw, hmem']
      · rename_i hmem
        have hmem' : port.node ∉ g.rerouteNames := fun h => hmem (hreroute.2 h)
        simp only [pure, Except.pure, Except.ok.injEq, hmem', not_false_eq_true, and_true]
        constructor
        · rintro rfl
          exact ⟨rfl, houtput⟩
        · rintro ⟨hport, houtput'⟩
          exact Prod.ext hport.symm (houtput.unique houtput')

theorem slot?_isSome_iff {b : Bindings} : (b.slot? port).isSome ↔ port ∈ b.ports.map Prod.fst := by
  unfold slot?
  rw [List.findIdx?_isSome, List.any_eq_true]
  simp

theorem checkComplete_eq_ok_iff {b : Bindings} {name : String} :
    b.checkComplete g name = .ok () ↔ ∃ n, g.node? name = some n ∧
      ∀ p ∈ n.outputs, n.portRef p ∈ b.ports.map Prod.fst := by
  unfold checkComplete
  cases hnode : g.node? name with
  | none => simp
  | some n =>
      simp only [Option.some.injEq, exists_eq_left', ← slot?_isSome_iff]
      cases hfind : n.outputs.find? fun p => (b.slot? (n.portRef p)).isNone with
      | none =>
          rw [List.find?_eq_none] at hfind
          simpa [← Option.isSome_iff_ne_none] using hfind
      | some missing =>
          have hmissing := List.find?_some hfind
          simp only [reduceCtorEq, false_iff]
          intro hall
          have hsome := hall missing (List.mem_of_find?_eq_some hfind)
          rw [Option.isNone_iff_eq_none.1 hmissing] at hsome
          contradiction

theorem make_eq_ok_iff {inputs : List PortRef} {b : Bindings} :
    make g (Index.build g) inputs = .ok b ↔
      List.Forall₂ (fun port typed => designate g (Index.build g) port = .ok typed) inputs b.ports ∧
        ∀ name ∈ b.nodes, b.checkComplete g name = .ok () := by
  rw [← forM_eq_ok_iff, ← mapM_eq_ok_iff]
  constructor
  · intro h
    obtain ⟨ports, hports, h₁⟩ := bind_eq_ok h
    obtain ⟨_, hcomplete, h₂⟩ := bind_eq_ok h₁
    cases h₂
    exact ⟨hports, hcomplete⟩
  · rintro ⟨hports, hcomplete⟩
    unfold make
    simp only [bind, Except.bind, hports, hcomplete]
    rfl

end Bindings

/-! ## The evaluation order -/

theorem mem_edges_iff {a b : String} : (a, b) ∈ (Index.build g).edges ↔
    ∃ target source, g.HasOrigin target source ∧ target.node = a ∧ source.node = b := by
  have hedges : (Index.build g).edges =
      ((g.links.filterMap fun l => (g.resolve? l.target).map fun origin =>
        (⟨l.target, origin⟩ : Link)).map fun l => (l.target.node, l.origin.node)).eraseDups := rfl
  rw [hedges, List.mem_eraseDups, List.mem_map]
  constructor
  · rintro ⟨l, hl, hab⟩
    obtain ⟨k, -, hk⟩ := List.mem_filterMap.1 hl
    obtain ⟨source, hsource, rfl⟩ := Option.map_eq_some_iff.1 hk
    cases hab
    exact ⟨k.target, source, Graph.resolve?_eq_some_iff.1 hsource, rfl, rfl⟩
  · rintro ⟨target, source, horigin, rfl, rfl⟩
    have hresolve := Graph.resolve?_eq_some_iff.2 horigin
    obtain ⟨l, hl, rfl⟩ := Graph.exists_link_of_resolve? hresolve
    exact ⟨⟨l.target, source⟩, List.mem_filterMap.2 ⟨l, hl, by rw [hresolve]; rfl⟩, rfl⟩

/-- What the schedule goes by is what nodes read. -/
theorem mem_needs_iff {bound : List String} (hbound : ∀ name, name ∈ bound ↔ r.Binds name)
    {a b : String} : b ∈ Schedule.needs (Index.build g).edges bound a ↔ g.Reads r a b := by
  unfold Schedule.needs Graph.Reads
  by_cases hbinds : r.Binds a
  · rw [if_pos (List.contains_iff_mem.2 ((hbound a).2 hbinds))]
    simp [hbinds]
  · rw [if_neg (by simpa using fun h => hbinds ((hbound a).1 h))]
    simp only [hbinds, not_false_eq_true, true_and, ← mem_edges_iff]
    simp

theorem step_needs_eq {bound : List String} (hbound : ∀ name, name ∈ bound ↔ r.Binds name) :
    Schedule.Step (Schedule.needs (Index.build g).edges bound) = g.Reads r := by
  funext a b
  exact propext (mem_needs_iff hbound)

section

variable {ix : Index} (hix : ix.nodes = g.nodes.map Node.name)
include hix

theorem scheduleRoots_eq_ok (bound : List String) {p : Schedule.Progress} (hp : p.Sound)
    (hknown : ∀ n, n ∈ p.fresh ∨ n ∈ p.listed → n ∈ g.nodes.map Node.name) {roots : List String}
    (hroots : ∀ root ∈ roots, root ∈ p.fresh ∨ root ∈ p.listed) :
    scheduleRoots g ix bound p roots =
      .ok (Schedule.visit (Schedule.needs ix.edges bound) p roots) := by
  induction roots generalizing p with
  | nil => rw [Schedule.visit_nil]; rfl
  | cons root roots ih =>
      obtain ⟨new, hnew⟩ := Schedule.exists_lists_visit (Schedule.needs ix.edges bound) hp
        (show ∀ s ∈ [root], s ∈ p.fresh ∨ s ∈ p.listed by
          simpa using hroots root List.mem_cons_self)
      have hcontains : ix.contains root = true := by
        rw [Index.contains, List.contains_iff_mem, hix]
        exact hknown root (hroots root List.mem_cons_self)
      have hvisit := Schedule.visit_append (Schedule.needs ix.edges bound) p [root] roots
      rw [List.singleton_append] at hvisit
      rw [scheduleRoots, if_pos hcontains, hvisit]
      generalize Schedule.visit (Schedule.needs ix.edges bound) p [root] = q at hnew ⊢
      have hkept : ∀ n, n ∈ q.fresh ∨ n ∈ q.listed ↔ n ∈ p.fresh ∨ n ∈ p.listed := by
        intro n
        have htaken := hnew.taken n
        rw [hnew.fresh, hnew.listed, List.mem_append]
        tauto
      have hfound : (q.listed.find? fun name => (g.node? name).isNone) = none := by
        rw [List.find?_eq_none]
        intro n hn
        have hsome := Graph.node?_isSome_iff.2 (hknown n ((hkept n).1 (.inr hn)))
        simpa [← Option.isSome_iff_ne_none] using hsome
      simp only [hfound]
      refine ih (hnew.sound hp) (fun n hn => hknown n ((hkept n).1 hn)) ?_
      intro s hs
      exact (hkept s).2 (hroots s (List.mem_cons_of_mem _ hs))

end

theorem map_name_filterMap_node? {names : List String}
    (h : ∀ name ∈ names, name ∈ g.nodes.map Node.name) :
    (names.filterMap g.node?).map Node.name = names := by
  induction names with
  | nil => rfl
  | cons name names ih =>
      obtain ⟨n, hn⟩ := Option.isSome_iff_exists.1
        (Graph.node?_isSome_iff.2 (h name List.mem_cons_self))
      rw [List.filterMap_cons_some hn, List.map_cons, (Graph.node?_eq_some hn).2,
        ih fun m hm => h m (List.mem_cons_of_mem _ hm)]

/-- The order of evaluation is the schedule, node by node, in whatever order the edges come. -/
theorem exists_evaluationOrder_of_nodes {ix : Index} (hix : ix.nodes = g.nodes.map Node.name)
    (hg : g.WellFormed) (bound : List String) {roots : List String}
    (hroots : ∀ root ∈ roots, root ∈ g.nodes.map Node.name) :
    ∃ order, evaluationOrder g ix bound roots = .ok order ∧
      order.map Node.name = (Schedule.visit (Schedule.needs ix.edges bound)
        ⟨g.nodes.map Node.name, []⟩ roots).listed := by
  have hstart : Schedule.Progress.Sound ⟨g.nodes.map Node.name, []⟩ :=
    ⟨hg.names_nodup, fun _ hn => absurd hn List.not_mem_nil⟩
  have hknown : ∀ n, n ∈ g.nodes.map Node.name ∨ n ∈ ([] : List String) →
      n ∈ g.nodes.map Node.name := by simp
  have hschedule := scheduleRoots_eq_ok hix bound hstart hknown
    (fun root hroot => .inl (hroots root hroot))
  obtain ⟨new, hnew⟩ := Schedule.exists_lists_start (Schedule.needs ix.edges bound)
    hg.names_nodup hroots
  refine ⟨_, ?_, map_name_filterMap_node? (g := g) ?_⟩
  · change (scheduleRoots g ix bound ⟨ix.nodes, []⟩ roots >>= _) = _
    rw [hix, hschedule]
    rfl
  · intro name hname
    rw [hnew.listed] at hname
    exact hnew.taken name hname

theorem exists_evaluationOrder (hg : g.WellFormed) (bound : List String) {roots : List String}
    (hroots : ∀ root ∈ roots, root ∈ g.nodes.map Node.name) :
    ∃ order, evaluationOrder g (Index.build g) bound roots = .ok order ∧
      order.map Node.name = (Schedule.visit (Schedule.needs (Index.build g).edges bound)
        ⟨g.nodes.map Node.name, []⟩ roots).listed :=
  exists_evaluationOrder_of_nodes rfl hg bound hroots

/-! ## Nodes that a request needs -/

/-- Data is never taken from a reroute. -/
theorem Graph.Needs.not_mem_rerouteNames {name : String} (h : g.Needs r name) :
    name ∉ g.rerouteNames := by
  obtain ⟨port, -, source, hsource, hreach⟩ := h
  rcases ReflTransGen.cases_tail hreach with heq | ⟨_, -, -, _, _, ⟨-, _, -, hchain⟩, -, hm⟩
  · rw [heq]
    exact hsource.not_reroute
  · rw [← hm]
    exact hchain.not_reroute

theorem Graph.Needs.reads {a b : String} (h : g.Needs r a) (hreads : g.Reads r a b) :
    g.Needs r b := by
  obtain ⟨port, hport, source, hsource, hreach⟩ := h
  exact ⟨port, hport, source, hsource, hreach.tail hreads⟩

/-! ## Plans -/

/-- The parts of a plan that has been made. -/
structure UnitPlan.Parts (plan : UnitPlan) (g : Graph) (r : UnitRequest) : Prop where
  version : plan.version = g.version
  requested : ¬ r.outputs.isEmpty = true
  outputs : r.outputs.mapM (resolveOutput g (Index.build g)) = .ok plan.outputs
  outputLayout : RecordLayout.forPorts plan.outputs = .ok plan.outputLayout
  bindings : Bindings.make g (Index.build g) r.graphInputs = .ok plan.bindings
  inputLayout : RecordLayout.forPorts plan.bindings.ports = .ok plan.inputLayout
  order : evaluationOrder g (Index.build g) plan.bindings.nodes
    (plan.outputs.map fun p => p.1.node) = .ok plan.order

theorem UnitPlan.parts_of_make {storage : StorageLayout} {plan : UnitPlan}
    (h : UnitPlan.make g (Index.build g) storage r = .ok plan) : plan.Parts g r := by
  obtain ⟨hversion, hrequested, houtputs, houtputLayout, hbindings, hinputLayout, horder⟩ :=
    UnitPlan.steps_of_make h
  exact ⟨hversion, hrequested, houtputs, houtputLayout, hbindings, hinputLayout, horder⟩

theorem UnitPlan.make_eq_ok_iff {plan : UnitPlan} :
    UnitPlan.make g (Index.build g) (StorageLayout.build g (Index.build g)) r = .ok plan ↔
      plan.Parts g r := by
  refine ⟨UnitPlan.parts_of_make, ?_⟩
  rintro ⟨hversion, hrequested, houtputs, houtputLayout, hbindings, hinputLayout, horder⟩
  exact UnitPlan.make_of_parts hversion hrequested houtputs houtputLayout hbindings hinputLayout
    horder

namespace UnitPlan

variable {plan : UnitPlan}

theorem Parts.lists (h : plan.Parts g r) : plan.bindings.Lists g r.graphInputs :=
  Bindings.make_eq_ok h.bindings

theorem Parts.serves (h : plan.Parts g r) : plan.Serves g r where
  outputs := (forall₂_of_mapM_eq_ok h.outputs).imp fun _ _ => Dataflow.resolveOutput_eq_ok
  outputLayout := RecordLayout.forPorts_eq_ok h.outputLayout
  bindings := h.lists
  inputLayout := RecordLayout.forPorts_eq_ok h.inputLayout
  order := evaluationOrder_eq_ok h.order

theorem Parts.mem_bound_iff (h : plan.Parts g r) (name : String) :
    name ∈ plan.bindings.nodes ↔ r.Binds name := by
  rw [← List.contains_iff_mem]
  exact h.lists.binds_iff name

theorem Parts.offers (hg : g.WellFormed) (h : plan.Parts g r) : g.Offers r := by
  have houtputs := mapM_eq_ok_iff.1 h.outputs
  obtain ⟨hdesignated, hcomplete⟩ := Bindings.make_eq_ok_iff.1 h.bindings
  have hnative := RecordLayout.forPorts_ok_iff.1 ⟨_, h.inputLayout⟩
  refine ⟨by simpa using h.requested, ?_, ?_, ?_⟩
  · intro port hport
    obtain ⟨⟨source, ty⟩, -, hresolve⟩ := exists_mem_of_forall₂ houtputs.flip hport
    obtain ⟨houtput, hty, hsource⟩ := resolveOutput_eq_ok_iff.1 hresolve
    exact ⟨⟨ty, houtput, hty⟩, source, hsource⟩
  · intro port hport
    obtain ⟨typed, htyped, hdesignate⟩ := exists_mem_of_forall₂ hdesignated.flip hport
    obtain ⟨-, houtput, hreroute⟩ := Bindings.designate_eq_ok_iff.1 hdesignate
    exact ⟨⟨typed.2, houtput, hnative typed htyped⟩, hreroute⟩
  · intro n hn hbinds p hp
    obtain ⟨m, hm, hports⟩ := Bindings.checkComplete_eq_ok_iff.1
      (hcomplete n.name ((h.mem_bound_iff n.name).2 hbinds))
    rw [Graph.node?_of_mem hg.names_nodup hn] at hm
    cases hm
    rw [← h.lists.ports_eq]
    exact hports p hp

/-- A requested output leads to a node of the graph. -/
theorem roots_mem (hg : g.WellFormed) {ports : List PortRef} {outputs : List TypedPort}
    (h : ports.mapM (resolveOutput g (Index.build g)) = .ok outputs) :
    ∀ root ∈ outputs.map fun p => p.1.node, root ∈ g.nodes.map Node.name := by
  intro root hroot
  obtain ⟨⟨source, ty⟩, htyped, rfl⟩ := List.mem_map.1 hroot
  obtain ⟨port, -, hresolve⟩ := exists_mem_of_forall₂ (mapM_eq_ok_iff.1 h) htyped
  obtain ⟨houtput, -, hsource⟩ := resolveOutput_eq_ok_iff.1 hresolve
  obtain ⟨ty', houtput'⟩ := hsource.hasOutput hg houtput
  exact houtput'.node_mem

theorem exists_parts (hg : g.WellFormed) (h : g.Offers r) : ∃ plan : UnitPlan, plan.Parts g r := by
  obtain ⟨outputs, houtputs⟩ : ∃ outputs, List.Forall₂ (fun port typed =>
      resolveOutput g (Index.build g) port = .ok typed) r.outputs outputs := by
    rw [exists_forall₂_iff]
    intro port hport
    obtain ⟨⟨ty, houtput, hty⟩, source, hsource⟩ := h.outputs port hport
    exact ⟨(source, ty), resolveOutput_eq_ok_iff.2 ⟨houtput, hty, hsource⟩⟩
  obtain ⟨ports, hports⟩ : ∃ ports, List.Forall₂ (fun port typed =>
      Bindings.designate g (Index.build g) port = .ok typed) r.graphInputs ports := by
    rw [exists_forall₂_iff]
    intro port hport
    obtain ⟨⟨ty, houtput, -⟩, hreroute⟩ := h.designated port hport
    exact ⟨(port, ty), Bindings.designate_eq_ok_iff.2 ⟨rfl, houtput, hreroute⟩⟩
  have hlists : Bindings.Lists ⟨ports⟩ g r.graphInputs := hports.imp fun port typed hport => by
    obtain ⟨hsame, houtput, -⟩ := Bindings.designate_eq_ok_iff.1 hport
    exact ⟨hsame, houtput⟩
  have hmake : Bindings.make g (Index.build g) r.graphInputs = .ok ⟨ports⟩ := by
    refine Bindings.make_eq_ok_iff.2 ⟨hports, ?_⟩
    intro name hname
    obtain ⟨port, hport, rfl⟩ := (hlists.binds_iff name).1 (List.contains_iff_mem.2 hname)
    obtain ⟨⟨ty, ⟨p, hp, -⟩, -⟩, -⟩ := h.designated port hport
    obtain ⟨n, hn, -⟩ := Graph.port_eq_ok_iff.1 hp
    obtain ⟨hmem, hname'⟩ := Graph.node?_eq_some hn
    refine Bindings.checkComplete_eq_ok_iff.2 ⟨n, hn, ?_⟩
    intro q hq
    rw [hlists.ports_eq]
    exact h.complete n hmem ⟨port, hport, hname'.symm⟩ q hq
  have houtputTypes : ∀ typed ∈ outputs, typed.2 ≠ .handle := by
    rintro ⟨source, ty⟩ htyped
    obtain ⟨port, -, hresolve⟩ := exists_mem_of_forall₂ houtputs htyped
    exact (resolveOutput_eq_ok_iff.1 hresolve).2.1
  have hportTypes : ∀ typed ∈ ports, typed.2 ≠ .handle := by
    intro typed htyped
    obtain ⟨port, hport, hdesignate⟩ := exists_mem_of_forall₂ hports htyped
    obtain ⟨⟨ty, houtput, hty⟩, -⟩ := h.designated port hport
    rw [(Bindings.designate_eq_ok_iff.1 hdesignate).2.1.unique houtput]
    exact hty
  obtain ⟨outputLayout, houtputLayout⟩ := RecordLayout.forPorts_ok_iff.2 houtputTypes
  obtain ⟨inputLayout, hinputLayout⟩ := RecordLayout.forPorts_ok_iff.2 hportTypes
  obtain ⟨order, horder, -⟩ := exists_evaluationOrder hg (Bindings.nodes ⟨ports⟩)
    (roots_mem hg (mapM_eq_ok_iff.2 houtputs))
  exact ⟨⟨g.version, outputs, outputLayout, ⟨ports⟩, inputLayout, order⟩, rfl,
    by simpa using h.requested, mapM_eq_ok_iff.2 houtputs, houtputLayout, hmake, hinputLayout,
    horder⟩

/-! ## Nodes of a plan -/

theorem Parts.map_name_order (hg : g.WellFormed) (h : plan.Parts g r) :
    plan.order.map Node.name = (Schedule.visit (Schedule.needs (Index.build g).edges
      plan.bindings.nodes) ⟨g.nodes.map Node.name, []⟩
        (plan.outputs.map fun p => p.1.node)).listed := by
  obtain ⟨order, horder, hnames⟩ := exists_evaluationOrder hg plan.bindings.nodes
    (roots_mem hg h.outputs)
  rw [h.order] at horder
  cases horder
  exact hnames

theorem mem_names_of_reads (hg : g.WellFormed) {a b : String} (h : g.Reads r a b) :
    b ∈ g.nodes.map Node.name := by
  obtain ⟨-, target, source, horigin, -, rfl⟩ := h
  obtain ⟨ty, houtput⟩ := horigin.hasOutput hg
  exact houtput.node_mem

theorem Parts.exists_root_iff (h : plan.Parts g r) {P : String → Prop} :
    (∃ root ∈ plan.outputs.map fun p => p.1.node, P root) ↔
      ∃ port ∈ r.outputs, ∃ source, g.LeadsTo port source ∧ P source.node := by
  have houtputs := mapM_eq_ok_iff.1 h.outputs
  constructor
  · rintro ⟨root, hroot, hP⟩
    obtain ⟨⟨source, ty⟩, htyped, rfl⟩ := List.mem_map.1 hroot
    obtain ⟨port, hport, hresolve⟩ := exists_mem_of_forall₂ houtputs htyped
    exact ⟨port, hport, source, (resolveOutput_eq_ok_iff.1 hresolve).2.2, hP⟩
  · rintro ⟨port, hport, source, hsource, hP⟩
    obtain ⟨⟨source', ty⟩, htyped, hresolve⟩ := exists_mem_of_forall₂ houtputs.flip hport
    cases hsource.unique (resolveOutput_eq_ok_iff.1 hresolve).2.2
    exact ⟨_, List.mem_map_of_mem htyped, hP⟩

theorem Parts.needs_source (h : plan.Parts g r) {typed : TypedPort}
    (htyped : typed ∈ plan.outputs) : g.Needs r typed.1.node := by
  obtain ⟨port, hport, source, hsource, hnode⟩ := (h.exists_root_iff (P := (· = typed.1.node))).1
    ⟨_, List.mem_map_of_mem htyped, rfl⟩
  exact ⟨port, hport, source, hsource, hnode ▸ .refl⟩

/-- The nodes of the plan are those the request needs. -/
theorem Parts.mem_order_iff (hg : g.WellFormed) (h : plan.Parts g r) {name : String} :
    name ∈ plan.order.map Node.name ↔ g.Needs r name := by
  have hneeds := @mem_needs_iff g r _ h.mem_bound_iff
  rw [h.map_name_order hg, Schedule.mem_visit_iff hg.names_nodup (roots_mem hg h.outputs)
    (fun a b hb => mem_names_of_reads hg (hneeds.1 hb)), step_needs_eq h.mem_bound_iff,
    h.exists_root_iff]
  rfl

/-- The nodes it calls are those that are not bound. -/
theorem Parts.mem_called_iff (hg : g.WellFormed) (h : plan.Parts g r) {n : Node} :
    n ∈ plan.called ↔ n ∈ g.nodes ∧ g.Needs r n.name ∧ ¬ r.Binds n.name := by
  have hbound : plan.bindings.binds n.name = true ↔ r.Binds n.name := h.lists.binds_iff n.name
  have hbinds : (!plan.bindings.binds n.name) = true ↔ ¬ r.Binds n.name := by
    rw [← hbound]
    simp
  unfold UnitPlan.called
  rw [List.mem_filter, hbinds, ← h.mem_order_iff hg, ← and_assoc]
  refine and_congr_left fun _ => ⟨?_, ?_⟩
  · intro hn
    exact ⟨evaluationOrder_eq_ok h.order n hn, List.mem_map_of_mem hn⟩
  · rintro ⟨hn, hname⟩
    obtain ⟨m, hm, hsame⟩ := List.mem_map.1 hname
    cases Graph.eq_of_name_eq hg.names_nodup (evaluationOrder_eq_ok h.order m hm) hn hsame
    exact hm

/-- A node of the plan comes after all it reads, or after none of a cycle that it lies on. -/
theorem Parts.inTurn (hg : g.WellFormed) (h : plan.Parts g r) :
    InTurn (fun earlier n => ∀ m, g.Reads r n m → m ∈ earlier ∨ ReflTransGen (g.Reads r) m n) []
      (plan.order.map Node.name) := by
  have hneeds := @mem_needs_iff g r _ h.mem_bound_iff
  rw [h.map_name_order hg, ← step_needs_eq h.mem_bound_iff]
  exact Schedule.visit_inTurn hg.names_nodup (roots_mem hg h.outputs)
    (fun a b hb => mem_names_of_reads hg (hneeds.1 hb))

theorem Parts.inTurn_iff_acyclic (hg : g.WellFormed) (h : plan.Parts g r) :
    InTurn (fun earlier n => ∀ m, g.Reads r n m → m ∈ earlier) [] (plan.order.map Node.name) ↔
      ∀ name, g.Needs r name → ¬ TransGen (g.Reads r) name name := by
  have hneeds := @mem_needs_iff g r _ h.mem_bound_iff
  simp only [← h.mem_order_iff hg]
  rw [h.map_name_order hg, ← step_needs_eq h.mem_bound_iff]
  exact Schedule.inTurn_iff_acyclic hg.names_nodup (roots_mem hg h.outputs)
    (fun a b hb => mem_names_of_reads hg (hneeds.1 hb))

end UnitPlan

end Dataflow
