import Dataflow.Unit.Generated

/-!
# What units are generated from

A unit is planned from the nodes, the name and the version of a graph, from what an index says of
reroutes, nodes and dependencies, and from the version of the cells. To generate it takes the
origins of data and the symbols of cells besides. Where all of these are the same, so is the unit:
`generateUnit_congr`.
-/

namespace Dataflow

/-- Plans take the same from the one graph, index and layout as from the others. -/
structure UnitPlan.SameSources (g g' : Graph) (ix ix' : Index) (storage storage' : StorageLayout) :
    Prop where
  version : g.version = g'.version
  name : g.name = g'.name
  node? : g.node? = g'.node?
  indexVersion : ix.version = ix'.version
  nodes : ix.nodes = ix'.nodes
  edges : ix.edges = ix'.edges
  reroutes : ix.reroutes = ix'.reroutes
  directOrigin? : ∀ input, ix.directOrigin? input = ix'.directOrigin? input
  storageVersion : storage.version = storage'.version

variable {g g' : Graph} {ix ix' : Index} {storage storage' : StorageLayout}

section

variable (h : UnitPlan.SameSources g g' ix ix' storage storage')

include h

theorem isReroute_congr (name : String) : ix.isReroute name = ix'.isReroute name := by
  unfold Index.isReroute
  rw [h.reroutes]

theorem followReroutes_congr (requested : PortRef) (fresh : List String) (source : PortRef) :
    followReroutes g ix requested fresh source = followReroutes g' ix' requested fresh source := by
  induction hlen : fresh.length generalizing fresh source with
  | zero =>
      rw [followReroutes, followReroutes, List.length_eq_zero_iff.1 hlen, isReroute_congr h]
      simp
  | succ len ih =>
      rw [followReroutes, followReroutes]
      simp only [h.version, h.node?, isReroute_congr h, h.directOrigin?]
      split
      · split
        · rename_i hmem
          have hlength : (fresh.erase source.node).length = len := by
            rw [List.length_erase_of_mem hmem, hlen, Nat.add_sub_cancel]
          simp only [fun origin => ih (fresh.erase source.node) origin hlength]
        · rfl
      · rfl

theorem outputType_congr : outputType g = outputType g' := by
  funext port
  unfold outputType Graph.port
  rw [h.node?, h.version]

theorem resolveOutput_congr : resolveOutput g ix = resolveOutput g' ix' := by
  funext port
  unfold resolveOutput
  simp only [outputType_congr h, h.reroutes, followReroutes_congr h]

theorem Bindings.make_congr : Bindings.make g ix = Bindings.make g' ix' := by
  funext inputs
  unfold make designate checkComplete
  simp only [outputType_congr h, h.node?, h.version, isReroute_congr h]

theorem scheduleRoots_congr (bound : List String) (p : Schedule.Progress) (roots : List String) :
    scheduleRoots g ix bound p roots = scheduleRoots g' ix' bound p roots := by
  induction roots generalizing p with
  | nil => rfl
  | cons root roots ih =>
      unfold scheduleRoots Index.contains
      simp only [h.node?, h.version, h.nodes, h.edges, ih]

theorem UnitPlan.make_congr (r : UnitRequest) : make g ix storage r = make g' ix' storage' r := by
  unfold make evaluationOrder
  simp only [h.version, h.name, h.indexVersion, h.storageVersion, h.node?, h.nodes,
    resolveOutput_congr h, Bindings.make_congr h, scheduleRoots_congr h]

end

/-! ## Entry functions -/

namespace EntryContext

variable {plan : UnitPlan} {functions : List (String × Ir.Function)}

/-- Supplied values are loaded without a look at the index or the cells. -/
theorem loadBound_congr (ix ix' : Index) (storage storage' : StorageLayout) (n : Node)
    (d : EntryDraft) (ports : List Port) :
    loadBound ⟨ix, storage, plan, functions⟩ n d ports =
      loadBound ⟨ix', storage', plan, functions⟩ n d ports := by
  induction ports generalizing d with
  | nil => rfl
  | cons p ports ih =>
      unfold loadBound inconsistent
      simp only [ih]

theorem storeOutputs_congr (ix ix' : Index) (storage storage' : StorageLayout) (d : EntryDraft)
    (field : Nat) (outputs : List TypedPort) :
    storeOutputs ⟨ix, storage, plan, functions⟩ d field outputs =
      storeOutputs ⟨ix', storage', plan, functions⟩ d field outputs := by
  induction outputs generalizing d field with
  | nil => rfl
  | cons typed outputs ih =>
      unfold storeOutputs inconsistent
      simp only [ih]

variable (horigins : ∀ input, ix.dataOrigin? input = ix'.dataOrigin? input)
  (hsymbols : ∀ port, (storage.cell? port).map StorageCell.symbol =
    (storage'.cell? port).map StorageCell.symbol)

include horigins hsymbols

/-- Of a cell only its symbol gets into the code. -/
theorem argument_congr (n : Node) (d : EntryDraft) (p : Port) :
    argument ⟨ix, storage, plan, functions⟩ n d p =
      argument ⟨ix', storage', plan, functions⟩ n d p := by
  have hcell := hsymbols (n.portRef p)
  unfold argument
  simp only [horigins]
  cases hfound : storage.cell? (n.portRef p) with
  | none =>
      rw [hfound, Option.map_none, eq_comm, Option.map_eq_none_iff] at hcell
      simp only [hcell, inconsistent]
  | some cell =>
      rw [hfound, Option.map_some, eq_comm, Option.map_eq_some_iff] at hcell
      obtain ⟨cell', hcell', hsymbol⟩ := hcell
      simp only [hcell', hsymbol]

theorem arguments_congr (n : Node) (d : EntryDraft) (ports : List Port) :
    arguments ⟨ix, storage, plan, functions⟩ n d ports =
      arguments ⟨ix', storage', plan, functions⟩ n d ports := by
  induction ports generalizing d with
  | nil => rfl
  | cons p ports ih =>
      unfold arguments
      simp only [argument_congr horigins hsymbols, ih]

theorem evaluate_congr (d : EntryDraft) (nodes : List Node) :
    evaluate ⟨ix, storage, plan, functions⟩ d nodes =
      evaluate ⟨ix', storage', plan, functions⟩ d nodes := by
  induction nodes generalizing d with
  | nil => rfl
  | cons n nodes ih =>
      unfold evaluate call inconsistent
      simp only [loadBound_congr ix ix' storage storage' n,
        arguments_congr horigins hsymbols, ih]

theorem generate_congr (name : String) :
    generate ⟨ix, storage, plan, functions⟩ name =
      generate ⟨ix', storage', plan, functions⟩ name := by
  unfold generate
  simp only [evaluate_congr horigins hsymbols, storeOutputs_congr ix ix' storage storage']

end EntryContext

/-- The unit is the same if everything is that it is generated from. -/
theorem generateUnit_congr (h : UnitPlan.SameSources g g' ix ix' storage storage')
    (horigins : ∀ input, ix.dataOrigin? input = ix'.dataOrigin? input)
    (hsymbols : ∀ port, (storage.cell? port).map StorageCell.symbol =
      (storage'.cell? port).map StorageCell.symbol) (r : UnitRequest) (sequence : Nat) :
    generateUnit g ix storage r sequence = generateUnit g' ix' storage' r sequence := by
  unfold generateUnit
  simp only [UnitPlan.make_congr h, EntryContext.generate_congr horigins hsymbols]

end Dataflow
