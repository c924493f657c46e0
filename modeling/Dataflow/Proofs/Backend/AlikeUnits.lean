import Dataflow.Proofs.Backend.Building
import Dataflow.Proofs.Storage.FreeInputs

/-!
# Units of alike graphs

The units of alike graphs read and fill the same records. The function of a node makes the same of
the same words wherever it is called from, so the units return the same values, though nodes may be
evaluated in different orders: `Graph.Alike.invoke`. Nothing is asked of the nodes here, whose
functions may trap and whose inputs may be fed with words of other types. If code is checked, then
it passes for both graphs or for neither, so both units are built or none, and new backends give the
same answers: `Graph.Alike.answers`.
-/

namespace Dataflow

open Ir

/-- A new backend builds a unit for the request, and on the first contents of the cells the unit
returns these values. -/
def Graph.Answers (g : Graph) (options : Options) (r : UnitRequest) (values vs : List Value) :
    Prop :=
  ∃ unit b, (Backend.start options g).build g (Index.build g) g.layout r = (.ok unit, b) ∧
    (CompiledUnit.ofGenerated unit 0).invoke (Backend.initialBank g.layout.cells) values = .ok vs

namespace Graph.Alike

variable {hidden : String → Prop} {g h : Graph} {r : UnitRequest}
  {supplied : List (PortRef × Value)} {cells : PortRef → Value} {n : Node}

section

variable (hgh : g.Alike hidden h)

include hgh

/-! ## Words that pass between functions -/

theorem inputCarries {p : Port} {w : Word}
    (hw : EntryContext.InputCarries g supplied cells n p w) :
    EntryContext.InputCarries h supplied cells n p w := by
  unfold EntryContext.InputCarries at hw ⊢
  rw [← hgh.resolve?_eq]
  refine ⟨fun origin horigin => ?_, hw.2⟩
  exact hgh.hasValueBy (hw.1 origin horigin) (hgh.not_hidden_of_resolve? horigin)

theorem proceeds (hn : g.Proceeds supplied cells n) : h.Proceeds supplied cells n := by
  obtain ⟨words, results, hwords, hresults⟩ := hn
  exact ⟨words, results, hwords.imp fun _ _ => hgh.inputCarries, hresults⟩

theorem fed (hn : g.Fed n) : h.Fed n := by
  intro p hp origin horigin
  rw [← hgh.resolve?_eq] at horigin
  exact (hgh.hasOutput_iff (hgh.not_hidden_of_resolve? horigin)).1 (hn p hp origin horigin)

end

variable (hgh : g.Alike hidden h) (hr : ∀ port ∈ r.outputs ++ r.graphInputs, ¬ hidden port.node)

include hgh hr

theorem passesCheck_iff : g.PassesCheck r ↔ h.PassesCheck r := by
  constructor
  · intro hpasses
    exact hgh.computed hr fun n hn hneeds hfree =>
      ⟨(hpasses n hn hneeds hfree).1, hgh.fed (hpasses n hn hneeds hfree).2⟩
  · intro hpasses
    exact hgh.symm.computed hr fun n hn hneeds hfree =>
      ⟨(hpasses n hn hneeds hfree).1, hgh.symm.fed (hpasses n hn hneeds hfree).2⟩

/-! ## Runs -/

open CompiledUnit

variable {sequence sequence' : Nat} {t t₁ t' t₁' : SymbolTable} {unit unit' : GeneratedUnit}
  {bank : Bank} {values vs : List Value} {number number' : Nat}

/-- What the unit of the one graph returns is what the unit of the other graph returns. -/
theorem invoke
    (hunit : (generateUnit g (Index.build g) g.layout r sequence).run t = (.ok unit, t₁))
    (hnodup : (unit.functions.map Function.id).Nodup)
    (hunit' : (generateUnit h (Index.build h) h.layout r sequence').run t' = (.ok unit', t₁'))
    (hnodup' : (unit'.functions.map Function.id).Nodup) (hcells : g.layout.Holds bank cells)
    (hinvoke : (ofGenerated unit number).invoke bank values = .ok vs) :
    (ofGenerated unit' number').invoke bank values = .ok vs := by
  have hcells' := hgh.holds hcells
  obtain ⟨plan, hplan⟩ := exists_follows hunit
  obtain ⟨plan', hplan'⟩ := exists_follows hunit'
  obtain ⟨houtputs, houtputLayout, hinputLayout, hcalled⟩ :=
    hgh.parts_agree hr hplan.parts hplan'.parts
  have hvalues := supplied_of_invoke hplan hinvoke
  have hvalues' :
      List.Forall₂ (fun port v => h.HasOutput port v.dataType) r.graphInputs values := by
    rw [List.forall₂_iff_zip] at hvalues ⊢
    refine ⟨hvalues.1, fun hv => (hgh.hasOutput_iff ?_).1 (hvalues.2 hv)⟩
    exact hr _ (List.mem_append_right _ (List.of_mem_zip hv).1)
  -- none of the functions traps in the one run, so none does in the other
  rcases execute_outcome hgh.left hunit hnodup hplan hcells hvalues number with
    ⟨hproceeds, words, hwords, hexecute⟩ | ⟨-, err, hexecute⟩
  · rcases execute_outcome hgh.right hunit' hnodup' hplan' hcells' hvalues' number' with
      ⟨-, words', hwords', hexecute'⟩ | ⟨⟨n, hn, hsticks⟩, -⟩
    · have hsame : words' = words := by
        refine List.right_unique_forall₂' (fun _ _ _ hw hw' => hw.unique hw') ?_ hwords
        rw [houtputs, List.forall₂_iff_zip] at hwords'
        rw [List.forall₂_iff_zip]
        refine ⟨hwords'.1, fun hw => hgh.symm.hasValueBy (hwords'.2 hw) ?_⟩
        exact hgh.not_hidden_source hplan.parts (List.of_mem_zip hw).1
      have hlayout : (ofGenerated unit' number').outputLayout =
          (ofGenerated unit number).outputLayout :=
        hplan'.outputLayout.trans (houtputLayout.trans hplan.outputLayout.symm)
      rw [invoke_of_execute hplan hvalues hexecute] at hinvoke
      rw [invoke_of_execute hplan' hvalues' hexecute', houtputLayout, hsame]
      exact readOutputs_of_layout hlayout hinvoke
    · exact absurd hsticks (hgh.proceeds (hproceeds n ((hcalled n).1 hn))).not_sticks
  · rw [invoke_of_execute hplan hvalues hexecute] at hinvoke
    contradiction

/-- What a new backend answers for the one graph it answers for the other. -/
theorem answers (hlayout : g.layout.Unreserved) {options : Options}
    (hanswers : g.Answers options r values vs) : h.Answers options r values vs := by
  obtain ⟨unit, b, hbuild, hinvoke⟩ := hanswers
  have hstart : Backend.start options h = Backend.start options g :=
    Backend.start_congr hgh.cells_eq.symm options
  have hbuilds := ((Backend.settled_start options g).exists_build_iff hgh.left hlayout).1
    ⟨unit, b, hbuild⟩
  rw [hgh.accepts_iff hr, hgh.acyclic_iff hr, hgh.passesCheck_iff hr, ← hstart] at hbuilds
  obtain ⟨unit', b', hbuild'⟩ :=
    ((Backend.settled_start options h).exists_build_iff hgh.right
      (hgh.unreserved hlayout)).2 hbuilds
  obtain ⟨_, hgenerate, hcompile⟩ := Backend.build_eq_ok hbuild
  obtain ⟨_, hgenerate', hcompile'⟩ := Backend.build_eq_ok hbuild'
  refine ⟨unit', b', hbuild', ?_⟩
  rw [← hgh.cells_eq]
  exact hgh.invoke hr (Backend.generate_eq_ok hgenerate).1 (Backend.compileUnit_eq_ok hcompile).1
    (Backend.generate_eq_ok hgenerate').1 (Backend.compileUnit_eq_ok hcompile').1
    (StorageLayout.holds_initialBank hgh.left) hinvoke

end Graph.Alike

end Dataflow
