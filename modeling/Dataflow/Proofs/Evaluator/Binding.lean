import Dataflow.Proofs.Evaluator.Readings
import Dataflow.Proofs.Evaluator.Transparency
import Dataflow.Proofs.Unit.Binding

/-!
# Binding a node to its own values

After a run without failures a node can be bound to the values it was just evaluated to, and any
request that is answered without the binding is answered with it as well. The answers are the
same, `Evaluator.evaluateWith_own_values`, unless the node has made a truth value of another byte
than 0 and 1: the byte is evaluated to true, and true is supplied as 1.
-/

namespace Dataflow

open Ir

namespace Evaluator

variable {e : Evaluator} {graphs : List Graph}

/-- With the present values of the inputs the node makes truth values of the bytes 0 and 1. -/
def ComputesTruth (e : Evaluator) (n : Node) : Prop :=
  ∀ p ∈ n.outputs, p.dataType = .bool → ∀ w,
    e.graph.HasValue [] e.cellValues (n.portRef p) w → w.IsTruth

/-- Stock kinds make no other truth values, and host kinds need not. -/
theorem Settled.computesTruth (h : e.Settled graphs) (hreroutes : e.graph.ReroutesTyped)
    (htruth : ∀ m ∈ e.graph.nodes, ∀ k, m.kind = .host k → m.KeepsTruth) {n : Node}
    (hn : n ∈ e.graph.nodes) (hcomputes : n.isReroute = false) : e.ComputesTruth n := by
  intro p hp hbool w hw
  have hg := h.inStep.reachable.wellFormed
  obtain ⟨bank, hcells⟩ := h.holds_cellValues
  exact hw.isTruth hg hreroutes hcells (Graph.truthAmong_all (hg.keepsTruth htruth)) trivial
    (hg.not_mem_rerouteNames hn hcomputes)
    ⟨p, hg.port_of_mem hn (show p ∈ n.ports .output from hp), hbool⟩

theorem not_binds_nil (outs : List PortRef) (name : String) :
    ¬ (⟨outs, []⟩ : UnitRequest).Binds name := by
  rintro ⟨_, hport, -⟩
  exact List.not_mem_nil hport

/-! ## Requests on settled evaluators

The requests may come after others, `Asked`, which have left the graph and the values as they were.
-/

section

variable (h : e.Settled graphs) {e' : Evaluator} (hasked : e.Asked e')
  (hreroutes : e.graph.ReroutesTyped)
  (hnames : ∀ m ∈ e.graph.nodes, ¬ "nodejit".toList <+: (Symbol.sanitize m.name).toList)
  {outs : List PortRef}

include h hasked hreroutes hnames

/-- What is evaluated has the values of the graph, and all that is computed for it passes the check
and has results. -/
theorem Settled.evaluate_eq_ok (hhost : e.graph.HostsEmitChecked ⟨outs, []⟩ e.options.verify)
    {vs : List Value} (hevaluate : (e'.evaluate outs).1 = .ok vs) :
    e.graph.Accepts ⟨outs, []⟩ ∧ e.graph.Acyclic ⟨outs, []⟩ ∧
      (∀ m ∈ e.graph.nodes, e.graph.Needs ⟨outs, []⟩ m.name →
        m.EmitsChecked ∧ e.graph.Evaluates [] e.cellValues m) ∧
      List.Forall₂ (e.graph.Yields [] e.cellValues) outs vs := by
  obtain ⟨h', hgraph, hoptions, hvalues⟩ := h.asked hasked
  rw [← hgraph] at hreroutes hnames hhost ⊢
  rw [← hoptions] at hhost
  rw [← hvalues]
  obtain ⟨unit, hunit⟩ := exists_compile_of_evaluateRequest hevaluate
  obtain ⟨hmade, hrequest, -⟩ := h'.unit_compile hunit
  obtain ⟨haccepts, hacyclic, hverified⟩ := hmade.accepts hnames
  rw [hrequest] at haccepts hacyclic hverified
  have hcomputed : ∀ m ∈ e'.graph.nodes, e'.graph.Needs ⟨outs, []⟩ m.name →
      m.EmitsChecked ∧ e'.graph.Evaluates [] e'.cellValues m := by
    intro m hm hneeds
    have hfree := not_binds_nil outs m.name
    refine ⟨?_, h'.evaluates_of_evaluateRequest hunit hreroutes .nil hhost hevaluate hm hneeds
      hfree⟩
    cases hverify : e'.options.verify with
    | true => exact hverified hverify m hm hneeds hfree
    | false =>
        exact (h'.inStep.reachable.wellFormed.nodes_wellFormed m hm).emitsChecked
          (hhost hverify m hm hneeds hfree)
  refine ⟨haccepts, hacyclic, hcomputed, ?_⟩
  obtain ⟨vs', hvs', hyields⟩ := h'.evaluateRequest_yields hunit hreroutes .nil
    fun m hm hneeds _ k hk => ⟨fun _ => (hcomputed m hm hneeds).1, (hcomputed m hm hneeds).2.ends⟩
  change (e'.evaluate outs).1 = .ok vs' at hvs'
  rw [hevaluate] at hvs'
  cases hvs'
  exact hyields

section

variable {n : Node} (hn : n ∈ e.graph.nodes) (hcomputes : n.isReroute = false)
  (haccepts : e.graph.Accepts ⟨outs, []⟩) (hacyclic : e.graph.Acyclic ⟨outs, []⟩)
  (hchecked : ∀ m ∈ e.graph.nodes, e.graph.Needs ⟨outs, []⟩ m.name → m.EmitsChecked)
  (howned : e.graph.Accepts ⟨n.outputs.map n.portRef, []⟩) {own : List Value}
  (hown : List.Forall₂ (e.graph.Yields [] e.cellValues) (n.outputs.map n.portRef) own)
  {bound : List (PortRef × Value)}
  (hbound : bound.Perm ((n.outputs.map n.portRef).zip own))

include hn hcomputes haccepts hacyclic hchecked howned hown hbound

/-- What the graph accepts is also compiled with a node bound to values it was evaluated to. -/
theorem Settled.exists_compile_bound :
    ∃ unit, (e'.compile ⟨outs, bound.map Prod.fst⟩).1 = .ok unit := by
  have hports : (bound.map Prod.fst).Perm (n.outputs.map n.portRef) := by
    have hmap := hbound.map Prod.fst
    rwa [List.map_fst_zip (Nat.le_of_eq hown.length_eq)] at hmap
  have hbinds := haccepts.bound h.inStep.reachable.wellFormed hn hcomputes
    (fun port hport => (howned.outputs port hport).1) hports
  have hcyclefree := hacyclic.bound (bound.map Prod.fst)
  obtain ⟨h', hgraph, -, -⟩ := h.asked hasked
  rw [← hgraph] at hreroutes hnames hbinds hcyclefree hchecked
  exact h'.unfailed.exists_compile h'.coherent h'.inStep h'.apart hreroutes hnames hbinds hcyclefree
    fun _ m hm hneeds _ => hchecked m hm hneeds.of_bound

/-- It is answered then if what is computed has results. -/
theorem Settled.exists_evaluateWith
    (hends : ∀ m ∈ e.graph.nodes, e.graph.Needs ⟨outs, bound.map Prod.fst⟩ m.name →
      ∀ k, m.kind = .host k → e.graph.Ends bound e.cellValues m) :
    ∃ vs, (e'.evaluateWith (bound.map Prod.fst) (bound.map Prod.snd) outs).1 = .ok vs ∧
      List.Forall₂ (e.graph.Yields bound e.cellValues) outs vs := by
  have hsupplied : List.Forall₂ (fun port (v : Value) => e.graph.HasOutput port v.dataType)
      (bound.map Prod.fst) (bound.map Prod.snd) := by
    rw [List.forall₂_map_left_iff, List.forall₂_map_right_iff, List.forall₂_same]
    intro s hs
    exact ((List.forall₂_iff_zip.1 hown).2 (hbound.mem_iff.1 hs)).hasOutput
  have hzip : (bound.map Prod.fst).zip (bound.map Prod.snd) = bound :=
    (List.zip_of_prod rfl rfl).symm
  obtain ⟨unit, hunit⟩ := h.exists_compile_bound hasked hreroutes hnames hn hcomputes haccepts
    hacyclic hchecked howned hown hbound
  obtain ⟨h', hgraph, -, hvalues⟩ := h.asked hasked
  rw [← hgraph] at hreroutes hsupplied hchecked hends ⊢
  rw [← hvalues] at hends ⊢
  obtain ⟨vs, hvs, hyields⟩ := h'.evaluateRequest_yields hunit hreroutes hsupplied
    fun m hm hneeds _ k hk => ⟨fun _ => hchecked m hm hneeds.of_bound,
      hzip.symm ▸ hends m hm hneeds k hk⟩
  exact ⟨vs, hvs, hzip ▸ hyields⟩

end

end

theorem options_after (g : Graph) (options : Options) (commands : List Command) :
    ((new g options).after commands).options = options := by
  induction commands using List.reverseRecOn with
  | nil => rfl
  | append_singleton commands command ih =>
      rw [after_snoc, options_step (coherent_after g options commands), ih]

/-- After a run without failures, let the outputs of a computing node and then other outputs be
evaluated, with any requests in between. If the node is bound to its values, in whatever order
its outputs are listed, the other outputs can still be compiled, and they have the values that
they had, provided that the node makes truth values of the bytes 0 and 1 only. So it is wherever
all host kinds do so. In any case there are some values, provided that code of hosts' own ends. -/
theorem evaluateWith_own_values {g : Graph} {options : Options} {commands : List Command}
    (hapart : Graph.ToldApart (graphsOf g commands))
    (hnone : failures ((new g options).outcomes commands) = 0) {e e₁ e₂ e₃ : Evaluator}
    (he : (new g options).after commands = e) (hreroutes : e.graph.ReroutesTyped)
    (hnames : ∀ m ∈ e.graph.nodes, ¬ "nodejit".toList <+: (Symbol.sanitize m.name).toList)
    {n : Node} (hn : n ∈ e.graph.nodes) (hcomputes : n.isReroute = false)
    {outs : List PortRef}
    (hhost : options.verify = false → ∀ m ∈ e.graph.nodes,
      e.graph.Needs ⟨n.outputs.map n.portRef, []⟩ m.name ∨ e.graph.Needs ⟨outs, []⟩ m.name →
        ∀ k, m.kind = .host k → m.EmitsChecked)
    {own vs : List Value}
    (h₁ : e.Asked e₁) (hown : (e₁.evaluate (n.outputs.map n.portRef)).1 = .ok own)
    (h₂ : e.Asked e₂) (houts : (e₂.evaluate outs).1 = .ok vs) (h₃ : e.Asked e₃)
    {bound : List (PortRef × Value)}
    (hbound : bound.Perm ((n.outputs.map n.portRef).zip own)) :
    (∃ unit, (e₃.compile ⟨outs, bound.map Prod.fst⟩).1 = .ok unit) ∧
      (e.ComputesTruth n →
        (e₃.evaluateWith (bound.map Prod.fst) (bound.map Prod.snd) outs).1 = .ok vs) ∧
      ((∀ m ∈ e.graph.nodes, ∀ k, m.kind = .host k → m.KeepsTruth) →
        (e₃.evaluateWith (bound.map Prod.fst) (bound.map Prod.snd) outs).1 = .ok vs) ∧
      ((∀ m ∈ e.graph.nodes, e.graph.Needs ⟨outs, bound.map Prod.fst⟩ m.name →
          ∀ k, m.kind = .host k → m.OwnCodeEnds) →
        ∃ vs', (e₃.evaluateWith (bound.map Prod.fst) (bound.map Prod.snd) outs).1 = .ok vs') := by
  have hsettled : e.Settled (graphsOf g commands) := he ▸ settled_after hapart options hnone
  have hoptions : e.options = options := he ▸ options_after g options commands
  rw [← hoptions] at hhost
  have hhost₁ : e.graph.HostsEmitChecked ⟨n.outputs.map n.portRef, []⟩ e.options.verify :=
    fun hoff m hm hneeds _ => hhost hoff m hm (.inl hneeds)
  have hhost₂ : e.graph.HostsEmitChecked ⟨outs, []⟩ e.options.verify :=
    fun hoff m hm hneeds _ => hhost hoff m hm (.inr hneeds)
  obtain ⟨howned, -, -, hyields₁⟩ := hsettled.evaluate_eq_ok h₁ hreroutes hnames hhost₁ hown
  obtain ⟨haccepts, hacyclic, hcomputed, hyields₂⟩ :=
    hsettled.evaluate_eq_ok h₂ hreroutes hnames hhost₂ houts
  have hchecked : ∀ m ∈ e.graph.nodes, e.graph.Needs ⟨outs, []⟩ m.name → m.EmitsChecked :=
    fun m hm hneeds => (hcomputed m hm hneeds).1
  have hcompile := hsettled.exists_compile_bound h₃ hreroutes hnames hn hcomputes haccepts hacyclic
    hchecked howned hyields₁ hbound
  have hanswers := hsettled.exists_evaluateWith h₃ hreroutes hnames hn hcomputes haccepts hacyclic
    hchecked howned hyields₁ hbound
  have hsame (htruth : e.ComputesTruth n) :
      (e₃.evaluateWith (bound.map Prod.fst) (bound.map Prod.snd) outs).1 = .ok vs := by
    have hwords := Graph.ownValues_of_yields hsettled.inStep.reachable.wellFormed hn hcomputes
      htruth hyields₁ hbound
    obtain ⟨vs', hvs', hyields₃⟩ := hanswers fun m hm hneeds _ _ =>
      ((hcomputed m hm hneeds.of_bound).2.bound hwords).ends
    have hunique : Relator.RightUnique (e.graph.Yields bound e.cellValues) :=
      fun _ _ _ hv hv' => hv.unique hv'
    rw [hvs', hunique.forall₂ hyields₃ (hyields₂.imp fun _ _ hv => hv.bound hwords)]
  refine ⟨hcompile, hsame, fun htruth =>
    hsame (hsettled.computesTruth hreroutes htruth hn hcomputes), fun hends => ?_⟩
  obtain ⟨vs', hvs', -⟩ := hanswers fun m hm hneeds k hk => by
    have hneeds' := hneeds.of_bound
    obtain ⟨f, hf⟩ := Node.exists_isFunction_iff.2
      (haccepts.emits m hm hneeds' (not_binds_nil outs m.name))
    exact Graph.ends_of_checked ⟨f, hf, hchecked m hm hneeds' f hf⟩ (hends m hm hneeds k hk)
  exact ⟨vs', hvs'⟩

end Evaluator

/-! ## A truth value of another byte

A node of a host kind adds two truth values as integers. Twice true is the byte 2, which is
evaluated to true and yet differs from true when another node compares them.
-/

namespace TwiceTrue

def constant : Node := ⟨"t", .constant (.bool true), [], [⟨"value", .bool, none⟩]⟩

def both : Node where
  name := "n"
  kind := .host ⟨"both", [⟨"a", .bool⟩, ⟨"b", .bool⟩], [⟨"out", .bool⟩], false, none,
    .math .add .i32⟩
  inputs := [⟨"a", .bool, some (.bool false)⟩, ⟨"b", .bool, some (.bool false)⟩]
  outputs := [⟨"out", .bool, none⟩]

def comparison : Node :=
  ⟨"eq", .compare .eq .bool, [⟨"a", .bool, some (.bool false)⟩, ⟨"b", .bool, some (.bool false)⟩],
    [⟨"result", .bool, none⟩]⟩

def value : PortRef := ⟨"t", "value"⟩

def out : PortRef := ⟨"n", "out"⟩

def result : PortRef := ⟨"eq", "result"⟩

def graph : Graph where
  name := "twice true"
  nodes := [constant, both, comparison]
  links := [⟨⟨"n", "a"⟩, value⟩, ⟨⟨"n", "b"⟩, value⟩, ⟨⟨"eq", "a"⟩, out⟩, ⟨⟨"eq", "b"⟩, value⟩]
  token := none

theorem reachable : graph.Reachable := by
  have h₁ : Graph.Reachable ⟨"twice true", [constant], [], none⟩ :=
    .addNode (.empty _) (show (Graph.empty "twice true").addNode "t" constant.kind =
      .ok (constant, _) from rfl)
  have h₂ : Graph.Reachable ⟨"twice true", [constant, both], [], none⟩ :=
    .addNode h₁ (show Graph.addNode _ "n" both.kind = .ok (both, _) from rfl)
  have h₃ : Graph.Reachable ⟨"twice true", [constant, both, comparison], [], none⟩ :=
    .addNode h₂ (show Graph.addNode _ "eq" comparison.kind = .ok (comparison, _) from rfl)
  have h₄ := Graph.Reachable.link h₃ (show Graph.link _ value ⟨"n", "a"⟩ = .ok (none, _) from rfl)
  have h₅ := Graph.Reachable.link h₄ (show Graph.link _ value ⟨"n", "b"⟩ = .ok (none, _) from rfl)
  have h₆ := Graph.Reachable.link h₅ (show Graph.link _ out ⟨"eq", "a"⟩ = .ok (none, _) from rfl)
  exact .link h₆ (show Graph.link _ value ⟨"eq", "b"⟩ = .ok (none, _) from rfl)

theorem toldApart : Graph.ToldApart (Evaluator.graphsOf graph []) := by
  refine ⟨fun g hg => ?_, fun g hg h hh _ => ?_⟩
  · rw [List.mem_singleton.1 hg]
    exact reachable
  · rw [List.mem_singleton.1 hg, List.mem_singleton.1 hh]
    exact (Graph.Agrees.refl reachable).same

theorem reroutesTyped : graph.ReroutesTyped := by
  intro n hn hreroute
  simp only [graph, List.mem_cons, List.not_mem_nil, or_false] at hn
  rcases hn with rfl | rfl | rfl <;> contradiction

theorem unreserved :
    ∀ n ∈ graph.nodes, ¬ "nodejit".toList <+: (Symbol.sanitize n.name).toList := by
  decide +kernel

/-! ### Evaluations -/

theorem needs_eq (bound : List String) :
    Schedule.needs (Index.build graph.remember).edges bound = fun node =>
      if bound.contains node then []
      else if node = "n" then ["t"]
      else if node = "eq" then ["n", "t"]
      else [] := by
  have hedges : (Index.build graph.remember).edges = [("n", "t"), ("eq", "n"), ("eq", "t")] := by
    decide +kernel
  funext node
  rw [hedges, Schedule.needs]
  by_cases hn : node = "n"
  · subst hn
    rfl
  · by_cases heq : node = "eq"
    · subst heq
      rfl
    · simp [hn, heq, Ne.symm hn, Ne.symm heq]

theorem order_eq :
    evaluationOrder graph.remember (Index.build graph.remember) [] ["t"] = .ok [constant] ∧
    evaluationOrder graph.remember (Index.build graph.remember) [] ["n"] = .ok [constant, both] ∧
    evaluationOrder graph.remember (Index.build graph.remember) [] ["eq"] =
      .ok [constant, both, comparison] ∧
    evaluationOrder graph.remember (Index.build graph.remember) ["n"] ["eq"] =
      .ok [both, constant, comparison] := by
  have hnodes : (Index.build graph.remember).nodes = ["t", "n", "eq"] := by decide +kernel
  have hnode : ∀ name, graph.remember.node? name = graph.node? name := fun _ => rfl
  simp only [evaluationOrder, scheduleRoots, Index.contains, needs_eq, hnodes, hnode,
    ← Option.not_isSome]
  generalize graph.remember.version = version
  refine ⟨?_, ?_, ?_, ?_⟩ <;> cbv

/-- The plan of a request for one truth value, with or without another one supplied. -/
def plan (source : PortRef) (bound : List TypedPort) (inputLayout : RecordLayout)
    (order : List Node) : UnitPlan where
  version := graph.remember.version
  outputs := [(source, .bool)]
  outputLayout := ⟨[⟨.bool, 0⟩], 1, 1⟩
  bindings := ⟨bound⟩
  inputLayout
  order

theorem cells_compiled : (Backend.new {}).compileGlobals graph.remember.layout =
    (.ok [], Backend.new {}) := by
  decide +kernel

open Evaluator

/-- There are no cells, so the answer only depends on the plan. -/
theorem evaluateRequest_eq {r : UnitRequest} {values vs : List Value} (hr : r.outputs ≠ [])
    (h : ((Backend.new {}).build graph.remember (Index.build graph.remember)
      graph.remember.layout r).1.map (fun unit =>
        (CompiledUnit.ofGenerated unit 0).invoke [] values) = .ok (.ok vs)) :
    ((new graph {}).evaluateRequest r values).1 = .ok vs := by
  have hstart : Backend.start {} graph.remember = Backend.new {} :=
    congrArg Prod.snd cells_compiled
  have hbank : Backend.initialBank graph.remember.layout.cells = [] := by decide +kernel
  rw [evaluateRequest_new_eq_ok_iff, hstart, hbank]
  refine ⟨hr, ?_⟩
  generalize (Backend.new {}).build graph.remember (Index.build graph.remember)
    graph.remember.layout r = outcome at h ⊢
  obtain ⟨result, b⟩ := outcome
  cases result with
  | error err => contradiction
  | ok unit => exact ⟨unit, b, rfl, Except.ok.inj h⟩

theorem evaluate_value : ((new graph {}).evaluate [value]).1 = .ok [.bool true] := by
  have hplan : UnitPlan.make graph.remember (Index.build graph.remember) graph.remember.layout
      ⟨[value], []⟩ = .ok (plan value [] ⟨[], 0, 1⟩ [constant]) := by
    refine UnitPlan.make_of_parts rfl (by decide) ?_ (by decide) ?_ (by decide) order_eq.1
    all_goals decide +kernel
  refine evaluateRequest_eq (by decide) ?_
  simp only [Backend.build, Backend.generate, generateUnit, hplan]
  decide +kernel

theorem evaluate_out : ((new graph {}).evaluate [out]).1 = .ok [.bool true] := by
  have hplan : UnitPlan.make graph.remember (Index.build graph.remember) graph.remember.layout
      ⟨[out], []⟩ = .ok (plan out [] ⟨[], 0, 1⟩ [constant, both]) := by
    refine UnitPlan.make_of_parts rfl (by decide) ?_ (by decide) ?_ (by decide) order_eq.2.1
    all_goals decide +kernel
  refine evaluateRequest_eq (by decide) ?_
  simp only [Backend.build, Backend.generate, generateUnit, hplan]
  decide +kernel

theorem evaluate_result : ((new graph {}).evaluate [result]).1 = .ok [.bool false] := by
  have hplan : UnitPlan.make graph.remember (Index.build graph.remember) graph.remember.layout
      ⟨[result], []⟩ = .ok (plan result [] ⟨[], 0, 1⟩ [constant, both, comparison]) := by
    refine UnitPlan.make_of_parts rfl (by decide) ?_ (by decide) ?_ (by decide) order_eq.2.2.1
    all_goals decide +kernel
  refine evaluateRequest_eq (by decide) ?_
  simp only [Backend.build, Backend.generate, generateUnit, hplan]
  decide +kernel

/-- The constant makes the byte 1. -/
theorem computesTruth_constant : (new graph {}).ComputesTruth constant := by
  intro p hp hbool w hw
  have hkeeps : constant.KeepsTruth :=
    (reachable.wellFormed.nodes_wellFormed constant (by decide)).keepsTruth (by simp [constant])
  have hport := reachable.remember.wellFormed.port_of_mem
    (show constant ∈ graph.remember.nodes from List.mem_cons_self)
    (show p ∈ constant.ports .output from hp)
  cases hw with
  | supplied hlookup => contradiction
  | @computed _ n args results k w _ hnode _ _ _ heval hindex hresult =>
      obtain rfl : constant = n := Option.some.inj hnode
      exact hkeeps args results heval (fun q x hx => by contradiction) p w
        (Graph.mem_zip_of_outputIndex? hport hnode hindex hresult) hbool

/-- The constant bound to its own value, after the comparison has been evaluated. -/
theorem evaluateWith_own_values_constant : Graph.ToldApart (graphsOf graph []) ∧
    failures ((new graph {}).outcomes []) = 0 ∧
    ((new graph {}).evaluate [value]).1 = .ok [.bool true] ∧
    ((new graph {}).evaluate [result]).1 = .ok [.bool false] ∧
    (((new graph {}).evaluate [result]).2.evaluateWith [value] [.bool true] [result]).1 =
      .ok [.bool false] := by
  have hasked : (new graph {}).Asked ((new graph {}).evaluate [result]).2 :=
    asked_of_evaluateRequest evaluate_result
  have hperm : List.Perm [(value, Value.bool true)]
      ((constant.outputs.map constant.portRef).zip [.bool true]) := .refl _
  obtain ⟨-, hsame, -⟩ := @evaluateWith_own_values graph {} [] toldApart rfl _ _ _ _ rfl
    reroutesTyped unreserved constant List.mem_cons_self rfl [result] nofun _ _ .refl
    evaluate_value .refl evaluate_result hasked _ hperm
  exact ⟨toldApart, rfl, evaluate_value, evaluate_result, hsame computesTruth_constant⟩

/-- The node that adds is evaluated to true. Bound to this value it makes the comparison true,
which is false otherwise. -/
theorem evaluateWith_twice_true : Graph.ToldApart (graphsOf graph []) ∧
    failures ((new graph {}).outcomes []) = 0 ∧ (new graph {}).graph.ReroutesTyped ∧
    (∀ n ∈ (new graph {}).graph.nodes,
      ¬ "nodejit".toList <+: (Symbol.sanitize n.name).toList) ∧
    both ∈ (new graph {}).graph.nodes ∧ both.isReroute = false ∧ both.outputs ≠ [] ∧
    ((new graph {}).evaluate (both.outputs.map both.portRef)).1 = .ok [.bool true] ∧
    ((new graph {}).evaluate [result]).1 = .ok [.bool false] ∧
    ((new graph {}).evaluateWith [out] [.bool true] [result]).1 = .ok [.bool true] := by
  have hplan : UnitPlan.make graph.remember (Index.build graph.remember) graph.remember.layout
      ⟨[result], [out]⟩ =
        .ok (plan result [(out, .bool)] ⟨[⟨.bool, 0⟩], 1, 1⟩ [both, constant, comparison]) := by
    refine UnitPlan.make_of_parts rfl (by decide) ?_ (by decide) ?_ (by decide) order_eq.2.2.2
    all_goals decide +kernel
  refine ⟨toldApart, rfl, reroutesTyped, unreserved, ?_, rfl, nofun, evaluate_out,
    evaluate_result, ?_⟩
  · exact List.mem_cons_of_mem _ List.mem_cons_self
  · refine evaluateRequest_eq (by decide) ?_
    simp only [Backend.build, Backend.generate, generateUnit, hplan]
    decide +kernel

end TwiceTrue

end Dataflow
