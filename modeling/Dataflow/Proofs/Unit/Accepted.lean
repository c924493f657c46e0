import Dataflow.Proofs.Graph.Alike
import Dataflow.Proofs.Unit.Emitted

/-!
# Which requests a graph accepts

`Graph.Accepts` says that everything a request asks for can be computed, each node by itself, and
`Graph.Acyclic` that no node it needs waits for itself. Alike graphs accept the same requests, as
long as these name no hidden reroute, and have the same nodes computed for them:
`Graph.Alike.accepts_iff` and `Graph.Alike.parts_agree`.
-/

namespace Dataflow

open Relation

namespace Graph

/-- Everything a request asks for can be computed, each node by itself. -/
structure Accepts (g : Graph) (r : UnitRequest) : Prop extends g.Offers r where
  emits : ∀ n ∈ g.nodes, g.Needs r n.name → ¬ r.Binds n.name → n.Emits

/-- No node that the request needs reads, through others, from itself. -/
def Acyclic (g : Graph) (r : UnitRequest) : Prop :=
  ∀ name, g.Needs r name → ¬ TransGen (g.Reads r) name name

end Graph

theorem UnitPlan.Parts.accepts_iff {g : Graph} {r : UnitRequest} {plan : UnitPlan}
    (hg : g.WellFormed) (h : plan.Parts g r) :
    g.Accepts r ↔ ∀ n ∈ plan.called, n.Emits := by
  constructor
  · intro haccepts n hn
    obtain ⟨hmem, hneeded, hunbound⟩ := (h.mem_called_iff hg).1 hn
    exact haccepts.emits n hmem hneeded hunbound
  · intro hemits
    exact ⟨h.offers hg, fun n hmem hneeded hunbound =>
      hemits n ((h.mem_called_iff hg).2 ⟨hmem, hneeded, hunbound⟩)⟩

/-! ## Computations that succeed alike -/

theorem mapM_ok_congr {ε ε' α β : Type} {f : α → Except ε β} {f' : α → Except ε' β} {xs : List α}
    (h : ∀ x ∈ xs, ∀ y, f x = .ok y ↔ f' x = .ok y) {ys : List β} :
    xs.mapM f = .ok ys ↔ xs.mapM f' = .ok ys := by
  rw [mapM_eq_ok_iff, mapM_eq_ok_iff]
  induction xs generalizing ys with
  | nil => simp
  | cons x xs ih =>
      have hfirst := h x List.mem_cons_self
      have hrest := @ih fun y hy => h y (List.mem_cons_of_mem _ hy)
      simp only [List.forall₂_cons_left_iff, hfirst, hrest]

namespace Graph.Alike

variable {hidden : String → Prop} {g h : Graph} {r : UnitRequest} {n : Node} {name : String}

section

variable (hgh : g.Alike hidden h)

include hgh

/-! ## Nodes that a request needs -/

theorem reads_eq : g.Reads r = h.Reads r := by
  funext a b
  unfold Reads
  simp only [← resolve?_eq_some_iff, hgh.resolve?_eq]

/-- The nodes that a request needs are in both graphs. -/
theorem mem_nodes_of_needs (hn : n ∈ g.nodes) (hneeds : g.Needs r n.name) : n ∈ h.nodes :=
  (hgh.nodes n (hgh.not_hidden (List.mem_map_of_mem hn) hneeds.not_mem_rerouteNames)).1 hn

/-- Data is taken from nodes that compute. -/
theorem not_hidden_source {plan : UnitPlan} (hplan : plan.Parts g r) {typed : TypedPort}
    (htyped : typed ∈ plan.outputs) : ¬ hidden typed.1.node :=
  hgh.not_hidden (UnitPlan.roots_mem hgh.left hplan.outputs _ (List.mem_map_of_mem htyped))
    (hplan.needs_source htyped).not_mem_rerouteNames

variable (hr : ∀ port ∈ r.outputs ++ r.graphInputs, ¬ hidden port.node)

include hr

theorem needs_iff : g.Needs r name ↔ h.Needs r name := by
  unfold Needs
  rw [hgh.reads_eq]
  refine exists_congr fun port => and_congr_right fun hport => ?_
  simp only [hgh.leadsTo_iff port _ (hr port (List.mem_append_left _ hport))]

theorem acyclic_iff : g.Acyclic r ↔ h.Acyclic r := by
  unfold Acyclic
  simp only [hgh.needs_iff hr, hgh.reads_eq]

theorem hasNativeOutput {port : PortRef} (hport : port ∈ r.outputs ++ r.graphInputs)
    (hnative : g.HasNativeOutput port) : h.HasNativeOutput port := by
  obtain ⟨ty, houtput, hty⟩ := hnative
  exact ⟨ty, (hgh.hasOutput_iff (hr port hport)).1 houtput, hty⟩

end

variable (hgh : g.Alike hidden h) (hr : ∀ port ∈ r.outputs ++ r.graphInputs, ¬ hidden port.node)

include hgh hr

theorem offers (hoffers : g.Offers r) : h.Offers r := by
  refine ⟨hoffers.requested, ?_, ?_, ?_⟩
  · intro port hport
    have hmem := List.mem_append_left r.graphInputs hport
    obtain ⟨hnative, source, hsource⟩ := hoffers.outputs port hport
    exact ⟨hgh.hasNativeOutput hr hmem hnative, source,
      (hgh.leadsTo_iff port source (hr port hmem)).1 hsource⟩
  · intro port hport
    have hmem := List.mem_append_right r.outputs hport
    obtain ⟨hnative, hreroute⟩ := hoffers.designated port hport
    exact ⟨hgh.hasNativeOutput hr hmem hnative,
      (hgh.mem_rerouteNames_iff (hr port hmem)).not.1 hreroute⟩
  · intro n hn hbinds
    obtain ⟨port, hport, hname⟩ := hbinds
    have hhidden : ¬ hidden n.name := hname ▸ hr port (List.mem_append_right _ hport)
    exact hoffers.complete n ((hgh.nodes n hhidden).2 hn) ⟨port, hport, hname⟩

/-- What holds of the computed nodes of the one graph holds of those of the other. -/
theorem computed {P : Node → Prop}
    (hcomputed : ∀ n ∈ g.nodes, g.Needs r n.name → ¬ r.Binds n.name → P n) :
    ∀ n ∈ h.nodes, h.Needs r n.name → ¬ r.Binds n.name → P n := by
  intro n hn hneeds hfree
  exact hcomputed n (hgh.symm.mem_nodes_of_needs hn hneeds) ((hgh.needs_iff hr).2 hneeds) hfree

theorem accepts_iff : g.Accepts r ↔ h.Accepts r := by
  constructor
  · intro haccepts
    exact ⟨hgh.offers hr haccepts.toOffers, hgh.computed hr haccepts.emits⟩
  · intro haccepts
    exact ⟨hgh.symm.offers hr haccepts.toOffers, hgh.symm.computed hr haccepts.emits⟩

/-! ## Plans -/

/-- Plans differ at most in their evaluation orders, and call the same nodes all the same. -/
theorem parts_agree {plan plan' : UnitPlan} (hplan : plan.Parts g r) (hplan' : plan'.Parts h r) :
    plan'.outputs = plan.outputs ∧ plan'.outputLayout = plan.outputLayout ∧
      plan'.inputLayout = plan.inputLayout ∧ ∀ n, n ∈ plan'.called ↔ n ∈ plan.called := by
  have houtputs : plan'.outputs = plan.outputs := by
    have hsame : r.outputs.mapM (resolveOutput h (Index.build h)) = .ok plan.outputs := by
      refine (mapM_ok_congr fun port hport typed => ?_).1 hplan.outputs
      have hport := hr port (List.mem_append_left _ hport)
      rw [resolveOutput_eq_ok_iff, resolveOutput_eq_ok_iff, hgh.hasOutput_iff hport,
        hgh.leadsTo_iff port _ hport]
    exact Except.ok.inj (hplan'.outputs.symm.trans hsame)
  have hports : plan'.bindings.ports = plan.bindings.ports := by
    have hmade := mapM_eq_ok_iff.2 (Bindings.make_eq_ok_iff.1 hplan.bindings).1
    have hmade' := mapM_eq_ok_iff.2 (Bindings.make_eq_ok_iff.1 hplan'.bindings).1
    have hsame : r.graphInputs.mapM (Bindings.designate h (Index.build h)) =
        .ok plan.bindings.ports := by
      refine (mapM_ok_congr fun port hport typed => ?_).1 hmade
      have hport := hr port (List.mem_append_right _ hport)
      rw [Bindings.designate_eq_ok_iff, Bindings.designate_eq_ok_iff, hgh.hasOutput_iff hport,
        hgh.mem_rerouteNames_iff hport]
    exact Except.ok.inj (hmade'.symm.trans hsame)
  have houtputLayout := hplan'.outputLayout
  have hinputLayout := hplan'.inputLayout
  rw [houtputs, hplan.outputLayout] at houtputLayout
  rw [hports, hplan.inputLayout] at hinputLayout
  refine ⟨houtputs, (Except.ok.inj houtputLayout).symm, (Except.ok.inj hinputLayout).symm, ?_⟩
  intro n
  rw [hplan'.mem_called_iff hgh.right, hplan.mem_called_iff hgh.left, ← hgh.needs_iff hr]
  constructor
  · rintro ⟨hn, hneeds, hfree⟩
    exact ⟨hgh.symm.mem_nodes_of_needs hn ((hgh.needs_iff hr).1 hneeds), hneeds, hfree⟩
  · rintro ⟨hn, hneeds, hfree⟩
    exact ⟨hgh.mem_nodes_of_needs hn hneeds, hneeds, hfree⟩

end Graph.Alike

end Dataflow
