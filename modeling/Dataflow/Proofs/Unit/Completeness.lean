import Dataflow.Proofs.Index.Orders
import Dataflow.Proofs.Storage.FreeInputs
import Dataflow.Proofs.Unit.Refusals
import Dataflow.Proofs.Unit.Sources

/-!
# Units by the index and the cells of an agreeing graph

A unit may be planned by the index of one graph and load from the cells of another, as long as
both agree with the graph it is made for. Planning then goes as if the links had been made in the
order of the first one, so all look-ups of the entry function succeed:
`EntryContext.complete_of_agrees`. No error of generating the unit blames the index, the cells
or the graph.
-/

namespace Dataflow

open Ir

/-- The error is none by which index, cells and graph are found not to fit together. -/
def UnitError.IsExternal : UnitError → Prop
  | .inconsistent .. | .globalsNotCompiled .. => False
  | _ => True

theorem UnitError.IsOfRequest.isExternal {err : UnitError} (h : err.IsOfRequest) :
    err.IsExternal := by
  cases err <;> trivial

theorem EntryContext.Refuses.isExternal {c : EntryContext} {err : UnitError} (h : c.Refuses err) :
    err.IsExternal := by
  cases h with
  | symbol _ => trivial
  | cycle _ => trivial

/-! ## Planning by an own index -/

variable {g h k : Graph} {r : UnitRequest}

theorem Bindings.failsOnly_make (g : Graph) (inputs : List PortRef) :
    FailsOnly UnitError.IsExternal (make g (Index.build g) inputs) := by
  refine .bind (.mapM fun port _ => (failsOnly_designate g _ port).mono fun _ h => h.isExternal)
    fun ports hports => ?_
  have hlists : Lists ⟨ports⟩ g inputs := (forall₂_of_mapM_eq_ok hports).imp fun port typed hport =>
    ⟨(designate_eq_ok_iff.1 hport).1, (designate_eq_ok_iff.1 hport).2.1⟩
  refine .bind (.forM fun name hname => ?_) fun _ _ => .ok _
  -- a designated output exists, and with it its node
  obtain ⟨node, hnode⟩ : ∃ n, g.node? name = some n := by
    obtain ⟨port, hport, rfl⟩ := (hlists.binds_iff name).1 (List.contains_iff_mem.2 hname)
    obtain ⟨typed, -, -, houtput⟩ := exists_mem_of_forall₂ hlists.flip hport
    exact Option.isSome_iff_exists.1 (Graph.node?_isSome_iff.2 houtput.node_mem)
  unfold checkComplete
  simp only [hnode]
  split
  · exact .error trivial
  · exact .ok _

theorem UnitPlan.failsOnly_make (hg : g.WellFormed) (r : UnitRequest) :
    FailsOnly UnitError.IsExternal (make g (Index.build g) g.layout r) := by
  have hversions : ¬((Index.build g).version ≠ g.version ∨ g.layout.version ≠ g.version) := by
    rintro (hne | hne) <;> exact hne rfl
  have hexternal : ∀ err : UnitError, err.IsOfRequest → err.IsExternal := fun _ h => h.isExternal
  unfold make
  simp only [if_neg hversions]
  split
  · exact .error trivial
  · refine .bind (.mapM fun port _ => (failsOnly_resolveOutput g port).mono hexternal)
      fun outputs houtputs => ?_
    refine .bind ((failsOnly_forPorts _).mono hexternal) fun _ _ => ?_
    refine .bind (Bindings.failsOnly_make g _) fun bindings _ => ?_
    refine .bind ((failsOnly_forPorts _).mono hexternal) fun _ _ => ?_
    obtain ⟨order, horder, -⟩ := exists_evaluationOrder hg bindings.nodes (roots_mem hg houtputs)
    refine .bind ?_ fun _ _ => .ok _
    rw [horder]
    exact .ok order

/-! ## Planning by the index of an agreeing graph -/

namespace Graph

/-- The graph with its links in the order in which another one has them. -/
def relinked (g h : Graph) : Graph := g.withLinks h.links

theorem version_relinked (g h : Graph) : (g.relinked h).version = g.version :=
  version_withLinks g h.links

theorem Agrees.relinked_same (hgh : g.Agrees h) : (g.relinked h).SameStructure h :=
  ⟨hgh.same.name, hgh.same.nodes, fun _ => rfl⟩

theorem Agrees.relinked_wellFormed (hgh : g.Agrees h) : (g.relinked h).WellFormed := by
  have hg := hgh.left.wellFormed
  have hh := hgh.right.wellFormed
  refine ⟨hg.names_nodup, hg.nodes_wellFormed, hh.targets_nodup, ?_⟩
  intro l hl
  obtain ⟨⟨source, sink, hsource, hsink, htype⟩, hapart⟩ := hh.links_wellFormed l hl
  obtain ⟨source', hsource', hspec⟩ := hgh.same.symm.exists_port hgh.right.declared
    hgh.left.declared hsource
  obtain ⟨sink', hsink', hspec'⟩ := hgh.same.symm.exists_port hgh.right.declared
    hgh.left.declared hsink
  refine ⟨⟨source', sink', hsource', hsink', ?_⟩, hapart⟩
  calc source'.dataType = source.dataType := congrArg PortSpec.dataType hspec
    _ = sink.dataType := htype
    _ = sink'.dataType := (congrArg PortSpec.dataType hspec').symm

theorem Agrees.index_relinked (hgh : g.Agrees h) : Index.build (g.relinked h) = Index.build h := by
  have hresolve := hgh.relinked_same.resolve?_eq hgh.left.declared hgh.right.declared
  have hnames : (g.relinked h).nodes.map Node.name = h.nodes.map Node.name := by
    have hidentity := congrArg (List.map Prod.fst) hgh.relinked_same.nodes
    rwa [List.map_map, List.map_map] at hidentity
  have hlinks : (g.relinked h).links = h.links := rfl
  unfold Index.build
  simp only [hresolve, hnames, hlinks, hgh.relinked_same.rerouteNames_eq, version_relinked,
    hgh.version]

end Graph

/-- The index of the one graph and the cells of another serve as well for the graph with its links
in the order of the first. -/
theorem UnitPlan.sameSources_relinked (hk : k.Agrees g) :
    SameSources g (g.relinked h) (Index.build h) (Index.build h) k.layout
      (g.relinked h).layout where
  version := (Graph.version_relinked g h).symm
  name := rfl
  node? := rfl
  indexVersion := rfl
  nodes := rfl
  edges := rfl
  reroutes := rfl
  directOrigin? := fun _ => rfl
  storageVersion := hk.version.trans (Graph.version_relinked g h).symm

theorem UnitPlan.make_of_agrees (hh : h.Agrees g) (hk : k.Agrees g) (r : UnitRequest) :
    make g (Index.build h) k.layout r =
      make (g.relinked h) (Index.build (g.relinked h)) (g.relinked h).layout r := by
  rw [hh.symm.index_relinked]
  exact make_congr (sameSources_relinked hk) r

/-! ## Units -/

variable {plan : UnitPlan} {label : String} {taken : List String}
  {functions : List (String × Function)} {t t' : SymbolTable}

theorem EntryContext.complete_of_agrees (hh : h.Agrees g) (hk : k.Agrees g)
    (hplan : UnitPlan.make g (Index.build h) k.layout r = .ok plan)
    (hnodes : (generateNodes (nodeSymbols label taken plan.called)).run t = (.ok functions, t')) :
    Complete ⟨Index.build h, k.layout, plan, functions⟩ g := by
  have hg := hh.right.wellFormed
  have hg' := hh.symm.relinked_wellFormed
  rw [UnitPlan.make_of_agrees hh hk] at hplan
  have hparts := UnitPlan.make_eq_ok_iff.1 hplan
  have hmem : ∀ n ∈ plan.order, n ∈ (g.relinked h).nodes := evaluationOrder_eq_ok hparts.order
  have hcomputes : ∀ n ∈ plan.order, n.isReroute = false := fun n hn =>
    isReroute_of_needs (hmem n hn) ((hparts.mem_order_iff hg').1 (List.mem_map_of_mem hn))
  have hcode := emits_of_generateNodes hnodes
  refine ⟨?_, ?_, fun n hn => (hcode n hn).1, fun n hn => (hcode n hn).2, ?_, ?_, ?_⟩
  · intro n hn
    exact ⟨Graph.node?_of_mem hg.names_nodup (hmem n hn), hcomputes n hn⟩
  · intro n hn hbinds p hp
    exact hparts.exists_slot hg' (hmem n hn) ((hparts.lists.binds_iff n.name).1 hbinds) hp
  · intro n hn p hp horigin
    have horder := (List.mem_filter.1 hn).1
    have hfree : g.FreeInput (n.portRef p) p.dataType := by
      refine ⟨⟨p, hg.port_of_mem (hmem n horder) (show p ∈ n.ports .input from hp), rfl⟩,
        (hcode n hn).1.native (show p ∈ n.ports .input from hp), ?_, ?_⟩
      · exact hg.not_mem_rerouteNames (hmem n horder) (hcomputes n horder)
      · intro source hsource
        change (Index.build h).dataOrigin? (n.portRef p) = none at horigin
        rw [Index.dataOrigin?_build, hh.resolve?_eq,
          Graph.resolve?_eq_some_iff.2 hsource] at horigin
        contradiction
    exact StorageLayout.exists_cell_of_freeInput (hk.symm.freeInput hfree)
  · exact fun typed htyped => hparts.exists_source hg' htyped
  · exact (RecordLayout.length_fields hparts.outputLayout).ge

theorem failsOnly_generateNodes (symbols : List (Node × String)) :
    Generation.FailsOnly UnitError.IsExternal (generateNodes symbols) := by
  induction symbols with
  | nil => exact Generation.failsOnly_pure []
  | cons entry symbols ih =>
      obtain ⟨n, name⟩ := entry
      have hports : ∀ role, FailsOnly UnitError.IsExternal (n.portTypes role) := fun role =>
        .mapM fun p _ => (failsOnly_nativeType _ _).mono fun _ h => h.isExternal
      unfold generateNodes
      refine .bind ?_ fun _ _ _ _ => .bind ih fun _ _ _ _ => Generation.failsOnly_pure _
      unfold Node.generate
      refine .bind (.ofExcept (hports .input)) fun _ _ _ _ => ?_
      refine .bind (.ofExcept (hports .output)) fun _ _ _ _ => ?_
      refine .bind (Generation.failsOnly_declareFunction (fun _ => trivial) _ _ _) fun _ _ _ _ => ?_
      refine .ofExcept ?_
      cases n.function _ name _ _ with
      | error err => exact .error trivial
      | ok f => exact .ok f

theorem failsOnly_generateUnit (hh : h.Agrees g) (hk : k.Agrees g) (r : UnitRequest)
    (sequence : Nat) : Generation.FailsOnly UnitError.IsExternal
      (generateUnit g (Index.build h) k.layout r sequence) := by
  have hplan : FailsOnly UnitError.IsExternal (UnitPlan.make g (Index.build h) k.layout r) := by
    rw [UnitPlan.make_of_agrees hh hk]
    exact UnitPlan.failsOnly_make hh.symm.relinked_wellFormed r
  refine .bind (.ofExcept hplan) fun plan _ _ hrun => ?_
  refine .bind (failsOnly_generateNodes _) fun functions _ _ hnodes => ?_
  have hcomplete := EntryContext.complete_of_agrees hh hk (Generation.run_ofExcept_eq_ok hrun).1
    hnodes
  refine .bind ((hcomplete.generate _).mono fun _ herr => herr.isExternal) fun _ _ _ _ => ?_
  exact Generation.failsOnly_pure _

end Dataflow
