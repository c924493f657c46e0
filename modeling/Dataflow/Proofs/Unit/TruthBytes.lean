import Dataflow.Proofs.Unit.Accepted
import Dataflow.Proofs.Unit.Binding

/-!
# Truth values in the memory of a run

Every byte that stands for a truth value in a run is 0 or 1: in the records and the cells, and in
the values that nodes are called with and make, so far as no host kind breaks the rule on the way.
`CompiledUnit.runsOnTruths_listing` says so for each run, in whatever order the index lists the
dependencies, and that the run ends.
-/

namespace Dataflow

open Ir Relation

/-- The image of a truth value. -/
def Bytes.IsTruth (bs : Bytes) : Prop := bs = [0] ∨ bs = [1]

theorem Ir.Word.IsTruth.image {w : Word} (h : w.IsTruth) : w.image.IsTruth := by
  obtain ⟨flag, rfl⟩ := h
  cases flag with
  | false => exact .inl rfl
  | true => exact .inr rfl

theorem Value.isTruth_toBytes {v : Value} (h : v.dataType = .bool) : v.toBytes.IsTruth := by
  rw [← v.image_word]
  exact (Value.isTruth_word h).image

/-! ## Records -/

/-- Every field of a truth value holds the byte 0 or 1. -/
def RecordLayout.HoldsTruths (layout : RecordLayout) (record : Bytes) : Prop :=
  ∀ f ∈ layout.fields, f.dataType = .bool → (fieldBytes record f).IsTruth

/-- Of a record that was filled, each field holds its own image. -/
theorem RecordLayout.forall₂_fieldBytes_fill {layout : RecordLayout} (hpacked : layout.Packed)
    {images : List Bytes} (hfits : layout.Fits 0 images) :
    List.Forall₂ (fun image f => fieldBytes (layout.fill layout.allocate 0 images) f = image)
      images layout.fields := by
  refine List.forall₂_iff_get.2 ⟨hfits.length_eq, ?_⟩
  intro k himage hfield
  refine fieldBytes_fill hpacked hfits (size_le_length_allocate _) ?_
    (List.getElem?_eq_getElem himage)
  rw [Nat.zero_add]
  exact List.getElem?_eq_getElem hfield

namespace UnitPlan.Serves

variable {plan : UnitPlan} {g : Graph} {r : UnitRequest} {values : List Value}

/-- Supplied truth values are written as 0 and 1. -/
theorem holdsTruths_inputRecord (hplan : plan.Serves g r)
    (hvalues : List.Forall₂ (fun port v => g.HasOutput port v.dataType) r.graphInputs values) :
    plan.inputLayout.HoldsTruths (inputRecord plan values) := by
  have htypes := hplan.values_types hvalues
  have hfilled := RecordLayout.forall₂_fieldBytes_fill
    (RecordLayout.ofTypes_eq_ok hplan.inputLayout).1 (CompiledUnit.fits_of_types htypes)
  rw [List.forall₂_map_left_iff] at hfilled
  intro f hf hbool
  obtain ⟨k, hk⟩ := List.getElem?_of_mem hf
  obtain ⟨v, hv, hbytes⟩ := exists_of_forall₂ hfilled hk
  obtain ⟨v', hv', hty⟩ := exists_of_forall₂ (forall₂_of_map_eq htypes) hk
  rw [hv] at hv'
  cases hv'
  rw [inputRecord, hbytes]
  exact Value.isTruth_toBytes (hty.trans hbool)

end UnitPlan.Serves

/-! ## Values -/

namespace Graph

variable {g : Graph} {r : UnitRequest} {values : List Value}

/-- All that is computed for the node is computed by stock kinds, from cells and supplied values,
or else by host kinds that keep truth values. -/
def TruthSource (g : Graph) (r : UnitRequest) (name : String) : Prop :=
  ∀ n ∈ g.nodes, ReflTransGen (g.Reads r) name n.name → ¬ r.Binds n.name →
    ∀ k, n.kind = .host k → n.KeepsTruth

theorem TruthSource.truthAmong {name : String} (h : g.TruthSource r name) (hg : g.WellFormed)
    (hvalues : List.Forall₂ (fun port v => g.HasOutput port v.dataType) r.graphInputs values) :
    g.TruthAmong (r.graphInputs.zip values) (ReflTransGen (g.Reads r) name) := by
  have hfree : ∀ {name : String}, (∀ s ∈ r.graphInputs.zip values, s.1.node ≠ name) →
      ¬ r.Binds name := by
    rintro name hfree ⟨port, hport, hname⟩
    have hkeys : (r.graphInputs.zip values).map Prod.fst = r.graphInputs :=
      List.map_fst_zip (Nat.le_of_eq hvalues.length_eq)
    rw [← hkeys] at hport
    obtain ⟨s, hs, rfl⟩ := List.mem_map.1 hport
    exact hfree s hs hname
  refine ⟨?_, ?_, ?_⟩
  · intro n hn hreach hn'
    by_cases hhost : ∃ k, n.kind = .host k
    · obtain ⟨k, hk⟩ := hhost
      exact h n hn hreach (hfree hn') k hk
    · exact (hg.nodes_wellFormed n hn).keepsTruth fun k hk => hhost ⟨k, hk⟩
  · intro n hn hreach hn' p hp origin horigin
    exact hreach.tail ⟨hfree hn', n.portRef p, origin, resolve?_eq_some_iff.1 horigin, rfl, rfl⟩
  · rintro ⟨port, v⟩ hs
    exact (List.forall₂_iff_zip.1 hvalues).2 hs

end Graph

namespace CompiledUnit

/-- A run of the unit: it ends, and the truth values in it are the bytes 0 and 1. -/
structure RunsOnTruths (u : CompiledUnit) (g : Graph) (cells : PortRef → Value) (bank : Bank)
    (values : List Value) : Prop where
  records : ∃ input output,
    writeInputs u.inputLayout u.inputLayout.allocate 0 values u.request.graphInputs = .ok input ∧
    u.inputLayout.HoldsTruths input ∧ u.execute bank input = .ok output ∧
    List.Forall₂ (fun port f => g.HasOutput port .bool →
      (∀ source, g.LeadsTo port source → g.TruthSource u.request source.node) →
        (RecordLayout.fieldBytes output f).IsTruth) u.request.outputs u.outputLayout.fields
  loaded : ∀ cell ∈ g.layout.cells, cell.dataType = .bool →
    ∃ bs, bank.lookup cell.symbol = some bs ∧ bs.IsTruth
  made : ∀ port w, g.Needs u.request port.node → g.TruthSource u.request port.node →
    g.HasOutput port .bool → g.HasValue (u.request.graphInputs.zip values) cells port w → w.IsTruth
  taken : ∀ n ∈ g.nodes, g.Needs u.request n.name → ¬ u.request.Binds n.name →
    g.TruthSource u.request n.name → ∀ p ∈ n.inputs, p.dataType = .bool → ∀ w,
      EntryContext.InputHas g (u.request.graphInputs.zip values) cells n p w → w.IsTruth

section

variable {g : Graph} (hg : g.WellFormed) (hreroutes : g.ReroutesTyped) {r : UnitRequest}
  {bank : Bank} {cells : PortRef → Value} (hcells : g.layout.Holds bank cells)
  {values : List Value}

include hg hreroutes hcells

variable
  (hvalues : List.Forall₂ (fun port v => g.HasOutput port v.dataType) r.graphInputs values)

include hvalues

/-- Requested truth values are written as 0 and 1. -/
theorem forall₂_isTruth_outputs {plan : UnitPlan} (hplan : plan.Serves g r) {words : List Word}
    (hwords : List.Forall₂ (fun (typed : TypedPort) w =>
      g.HasScalar (r.graphInputs.zip values) cells typed.1 w) plan.outputs words) :
    List.Forall₂ (fun port f => g.HasOutput port .bool →
      (∀ source, g.LeadsTo port source → g.TruthSource r source.node) →
        (RecordLayout.fieldBytes (plan.outputLayout.fill plan.outputLayout.allocate 0
          (words.map Word.image)) f).IsTruth) r.outputs plan.outputLayout.fields := by
  have htruths : List.Forall₂ (fun w port => g.HasOutput port .bool →
      (∀ source, g.LeadsTo port source → g.TruthSource r source.node) → w.IsTruth)
      words r.outputs := by
    refine forall₂_trans hwords hplan.outputs.flip ?_
    rintro typed w port ⟨hvalue, -⟩ ⟨-, -, hsource⟩ hbool hsources
    have hleads := Graph.resolveFrom?_eq_some_iff.1 hsource
    exact hvalue.isTruth hg hreroutes hcells
      ((hsources _ hleads).truthAmong hg hvalues) .refl (Graph.LeadsTo.not_reroute hleads)
      (Graph.hasOutput_resolveFrom? hg hreroutes hbool hsource)
  have hfits := fits_of_suits hplan.outputLayout (suits_of_words hg hreroutes hplan.outputs hwords)
  have hfilled := RecordLayout.forall₂_fieldBytes_fill
    (RecordLayout.ofTypes_eq_ok hplan.outputLayout).1 hfits
  rw [List.forall₂_map_left_iff] at hfilled
  refine forall₂_trans htruths hfilled ?_
  intro w port f htruth hbytes hbool hsources
  rw [hbytes]
  exact (htruth hbool hsources).image

theorem runsOnTruths {b b₁ b₂ b₃ : Backend} {unit : GeneratedUnit}
    (hgenerate : b.generate g (Index.build g) g.layout r = (.ok unit, b₁))
    (hcompile : b₂.compileUnit unit = (.ok (), b₃))
    (hhost : ∀ n ∈ g.nodes, n.name ∈ unit.nodeOrder → ∀ k, n.kind = .host k →
      g.KeepsContract (r.graphInputs.zip values) cells n b₂.verify)
    (number : Nat) : (ofGenerated unit number).RunsOnTruths g cells bank values := by
  obtain ⟨hunit, -⟩ := Backend.generate_eq_ok hgenerate
  obtain ⟨plan, words, hfollows, hwords, hexecute⟩ :=
    exists_execute hg hcells hvalues hreroutes hunit hcompile hhost number
  have hplan := hfollows.parts.serves
  obtain ⟨-, rfl, hinput, houtput, -, -⟩ := hfollows
  refine ⟨⟨_, _, writeInputs_of_serves hplan hinput hvalues, ?_, hexecute, ?_⟩, ?_, ?_, ?_⟩
  · change RecordLayout.HoldsTruths unit.inputLayout _
    rw [hinput]
    exact hplan.holdsTruths_inputRecord hvalues
  · change List.Forall₂ _ _ unit.outputLayout.fields
    rw [houtput]
    exact forall₂_isTruth_outputs hg hreroutes hcells hvalues hplan hwords
  · intro cell hcell hbool
    obtain ⟨hlookup, htype⟩ := hcells cell hcell
    exact ⟨_, hlookup, Value.isTruth_toBytes (htype.trans hbool)⟩
  · intro port w hneeds hsource hbool hw
    exact hw.isTruth hg hreroutes hcells (hsource.truthAmong hg hvalues) .refl
      hneeds.not_mem_rerouteNames hbool
  · rintro n hn hneeds hfree hsource p hp hbool w ⟨horigin, hcell, -⟩
    refine Graph.isTruth_of_input hg hreroutes hcells hn hneeds.not_mem_rerouteNames hp hbool ?_
      hcell
    intro origin hresolve hnode houtput
    refine (horigin origin hresolve).isTruth hg hreroutes hcells
      (hsource.truthAmong hg hvalues) ?_ hnode houtput
    exact .single ⟨hfree, n.portRef p, origin, Graph.resolve?_eq_some_iff.1 hresolve, rfl, rfl⟩

end

/-! ## Any order of the dependencies -/

/-- Runs are about what alike graphs have in common. -/
theorem RunsOnTruths.of_alike {u : CompiledUnit} {g h : Graph} {cells : PortRef → Value}
    {bank : Bank} {values : List Value} (hgh : g.Alike (fun _ => False) h)
    (hruns : u.RunsOnTruths g cells bank values) : u.RunsOnTruths h cells bank values := by
  have hneeds (name : String) : g.Needs u.request name ↔ h.Needs u.request name :=
    hgh.needs_iff fun _ _ => not_false
  have hsource (name : String) : g.TruthSource u.request name ↔ h.TruthSource u.request name := by
    unfold Graph.TruthSource
    simp only [hgh.reads_eq, fun n => hgh.nodes n not_false]
  refine ⟨?_, ?_, ?_, ?_⟩
  · obtain ⟨input, output, hinput, hheld, hexecute, houtputs⟩ := hruns.records
    refine ⟨input, output, hinput, hheld, hexecute, houtputs.imp ?_⟩
    intro port f htruth hbool hsources
    refine htruth ((hgh.hasOutput_iff not_false).2 hbool) fun source hleads => ?_
    exact (hsource _).2 (hsources source ((hgh.leadsTo_iff port source not_false).1 hleads))
  · rw [← hgh.cells_eq]
    exact hruns.loaded
  · intro port w hneeded htruth hbool hw
    exact hruns.made port w ((hneeds _).2 hneeded) ((hsource _).2 htruth)
      ((hgh.hasOutput_iff not_false).2 hbool) (hgh.symm.hasValueBy hw not_false)
  · intro n hn hneeded hfree htruth p hp hbool w hw
    exact hruns.taken n ((hgh.nodes n not_false).2 hn) ((hneeds _).2 hneeded) hfree
      ((hsource _).2 htruth) p hp hbool w (hgh.symm.inputHas hw)

/-- The order of the dependencies is of no matter to the bytes in a run. -/
theorem runsOnTruths_listing {g : Graph} (hg : g.Reachable) (hreroutes : g.ReroutesTyped)
    {edges : List (String × String)} (hedges : edges.Perm (Index.build g).edges)
    {r : UnitRequest} {bank : Bank} {cells : PortRef → Value} (hcells : g.layout.Holds bank cells)
    {values : List Value}
    (hvalues : List.Forall₂ (fun port v => g.HasOutput port v.dataType) r.graphInputs values)
    {b b₁ b₂ b₃ : Backend} {unit : GeneratedUnit}
    (hgenerate : b.generate g ((Index.build g).listing edges) g.layout r = (.ok unit, b₁))
    (hcompile : b₂.compileUnit unit = (.ok (), b₃))
    (hhost : ∀ n ∈ g.nodes, n.name ∈ unit.nodeOrder → ∀ k, n.kind = .host k →
      g.KeepsContract (r.graphInputs.zip values) cells n b₂.verify)
    (number : Nat) : (ofGenerated unit number).RunsOnTruths g cells bank values := by
  obtain ⟨links, halike, hgenerate', hcells', hhost'⟩ :=
    exists_links_generate hg hedges hgenerate hcells hhost
  exact (runsOnTruths halike.left hreroutes hcells' hvalues hgenerate' hcompile hhost'
    number).of_alike halike

end CompiledUnit

end Dataflow
