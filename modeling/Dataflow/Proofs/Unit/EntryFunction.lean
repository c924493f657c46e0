import Dataflow.Proofs.Storage.Cells
import Dataflow.Proofs.Unit.Carried
import Dataflow.Proofs.Unit.EntrySteps
import Dataflow.Proofs.Unit.Records

/-!
# The entry function computes the values of the requested outputs

Along the order of the plan, loading the outputs of a bound node and calling the function
of a computed one keep `EntryDraft.Reaches`, so every value that the entry function stores
in the output record is the word that its output carries: `EntryContext.generate_runs`. The run
traps only in a function that makes nothing of the words it is called with. None of this needs
functions that pass the type check.
-/

namespace Dataflow

open Ir

/-- A run of the entry function made in this context, on a graph, supplied values and the
contents of cells. -/
structure EntryContext.Hosts (c : EntryContext) (R : EntryRun) (g : Graph) (r : UnitRequest)
    (values : List Value) (cells : PortRef → Value) : Prop where
  wellFormed : g.WellFormed
  index_eq : c.index = Index.build g
  storage_eq : c.storage = StorageLayout.build g c.index
  plan : c.plan.Serves g r
  supplied : List.Forall₂ (fun port v => g.HasOutput port v.dataType) r.graphInputs values
  input_eq : R.memory.input = UnitPlan.Serves.inputRecord c.plan values
  cells_hold : c.storage.Holds R.memory.cells cells
  slots_eq : R.memory.slots = R.function.slots.map fun size => List.replicate size 0
  functions : ∀ name f, (name, f) ∈ c.functions →
    (∃ n ∈ g.nodes, n.name = name ∧ n.IsFunction f) ∧
    ∀ args m, R.calls f.id args m = f.runLeaf args m
  means_eq : R.means = g.Carries (r.graphInputs.zip values) cells

namespace EntryContext

open EntryDraft

variable {c : EntryContext} {R : EntryRun} {g : Graph} {r : UnitRequest} {values : List Value}
  {cells : PortRef → Value} {d d' : EntryDraft} {env : Env} {m : Memory}
  {t t' : SymbolTable}

/-! ## Bound nodes -/

theorem loadBound_leadsTo (hc : c.Hosts R g r values cells) {n : Node} (hn : n ∈ g.nodes)
    {ports : List Port} (hports : ∀ p ∈ ports, p ∈ n.outputs)
    (h : c.loadBound n d ports = .ok d') : LeadsTo R True False d d' := by
  induction ports generalizing d with
  | nil =>
      cases h
      exact .refl _ trivial _
  | cons p ports ih =>
      obtain ⟨slot, ty, offset, hslot, hty, hoffset, h₁⟩ := loadBound_cons_eq_ok h
      have hp : p ∈ n.ports .output := hports p List.mem_cons_self
      have houtput : g.HasOutput (n.portRef p) p.dataType :=
        ⟨p, hc.wellFormed.port_of_mem hn hp, rfl⟩
      have hnative := nativeType_eq_ok hty
      obtain ⟨v, hlookup, hscalar, himage⟩ :=
        hc.plan.exists_supplied hc.supplied hslot hoffset houtput hnative
      have hload : LeadsTo R True False d (d.defineOutput (n.portRef p) (.load ty 0 offset)) := by
        refine ⟨⟨List.prefix_append _ _, List.prefix_rfl, List.prefix_rfl, List.prefix_rfl⟩, ?_⟩
        intro env m _ hreaches
        refine .inl ⟨trivial, _, m, hreaches.defineOutput (w := v.word) ?_ ?_⟩
        · simp only [Operation.eval, Env.getRegion_of_lookup hreaches.input]
          refine Memory.load_of_bytes? hscalar (show m.bytes? .input = some _ from rfl) ?_
          rw [hreaches.inputRecord, hc.input_eq]
          exact himage
        · rw [hc.means_eq]
          exact .supplied hlookup
      exact hload.trans (ih (fun q hq => hports q (List.mem_cons_of_mem _ hq)) h₁)
        (fun _ _ => trivial) fun hnever => hnever.elim id id

/-! ## Arguments of calls -/

theorem cellLoad_reaches (hc : c.Hosts R g r values cells) {n : Node} (hn : n ∈ g.nodes)
    {p : Port} (hp : p ∈ n.inputs) {cell : StorageCell}
    (hcell : c.storage.cell? (n.portRef p) = some cell) {ty : Ty}
    (hty : p.dataType.native = some ty) {colocated : Bool}
    (hwithin : (cellLoad d cell.symbol colocated ty).Within R.function)
    (h : Reaches R d env m) :
    ∃ env', Reaches R (cellLoad d cell.symbol colocated ty) env' m ∧
      d.Keeps env (cellLoad d cell.symbol colocated ty) env' ∧
      env'.lookup (d.next + 1) = some (cells (n.portRef p)).word := by
  obtain ⟨hmem, hport⟩ := StorageLayout.mem_of_cell? hcell
  obtain ⟨hlookup, htype⟩ := hc.cells_hold cell hmem
  rw [hport] at hlookup htype
  rw [hc.storage_eq] at hcell
  rw [StorageLayout.dataType_of_cell?_build hc.wellFormed hn hp hcell] at htype
  have hscalar : (cells (n.portRef p)).word.IsScalar ty :=
    Value.isScalar_word _ (by rw [htype]; exact hty)
  -- The reference to the cell is the one that the draft has just added.
  have hglobal : R.function.globals[d.globals.length]? =
      some ⟨cell.symbol, colocated, d.globals.length + d.callees.length⟩ := by
    obtain ⟨rest, hrest⟩ := hwithin.globals
    rw [← hrest]
    change (d.globals ++ [_] ++ rest)[d.globals.length]? = _
    simp
  have haddress : (Operation.globalAddress d.globals.length).eval R.function env m =
      .ok (.address (.cell cell.symbol)) := by
    simp only [Operation.eval, hglobal]
  have hadded : Reaches R (d.addGlobal cell.symbol colocated) env m := { h with }
  have hbase := hadded.define haddress
  have hload : (Operation.load ty d.next 0).eval R.function
      ((d.next, .address (.cell cell.symbol)) :: env) m = .ok (cells (n.portRef p)).word := by
    simp only [Operation.eval, Env.getRegion_of_lookup List.lookup_cons_self]
    refine Memory.load_of_bytes? hscalar
      (show m.bytes? (.cell cell.symbol) = some (cells (n.portRef p)).toBytes from ?_) ?_
    · change m.cells.lookup cell.symbol = _
      rw [h.cells, hlookup]
    · rw [List.drop_zero, ← Value.image_word, ← hscalar.length_image, List.take_length]
  refine ⟨_, hbase.define hload, ?_, List.lookup_cons_self⟩
  have hkeeps := (Keeps.define (d.addGlobal cell.symbol colocated) env
    (.globalAddress d.globals.length) (.address (.cell cell.symbol))).trans
    (Keeps.define _ _ (.load ty d.next 0) (cells (n.portRef p)).word)
  exact ⟨hkeeps.next_le, hkeeps.lookup_eq⟩

/-- An argument is at hand once the code for it has run. -/
theorem argument_reaches (hc : c.Hosts R g r values cells) {n : Node} (hn : n ∈ g.nodes)
    {p : Port} (hp : p ∈ n.inputs) {v : Var}
    (h : (c.argument n d p).run t = (.ok (v, d'), t')) :
    d.Extends d' ∧ ∀ env m, d'.Within R.function → Reaches R d env m →
      ∃ env' w, Reaches R d' env' m ∧ d.Keeps env d' env' ∧ v < d'.next ∧
        env'.lookup v = some w ∧ InputCarries g (r.graphInputs.zip values) cells n p w := by
  have hresolve : g.resolve? (n.portRef p) = c.index.dataOrigin? (n.portRef p) := by
    rw [hc.index_eq, Index.dataOrigin?_build]
  obtain ⟨ty, hty, ⟨origin, horigin, hvalue, rfl, -⟩ |
    ⟨horigin, cell, linkage, hcell, -, rfl, rfl⟩⟩ := argument_eq_ok h
  · rw [horigin] at hresolve
    refine ⟨.refl d', ?_⟩
    intro env m _ hreaches
    obtain ⟨hlt, w, hw, hmeans⟩ := hreaches.values origin v hvalue
    rw [hc.means_eq] at hmeans
    refine ⟨env, w, hreaches, .refl d' env, hlt, hw, ?_, ?_⟩
    · intro origin' horigin'
      rw [hresolve] at horigin'
      cases horigin'
      exact hmeans
    · intro hnone
      rw [hresolve] at hnone
      contradiction
  · rw [horigin] at hresolve
    have hextends : d.Extends (cellLoad d cell.symbol linkage.isFinal ty) :=
      ⟨(List.prefix_append _ _).trans (List.prefix_append _ _), List.prefix_rfl,
        List.prefix_append _ _, List.prefix_rfl⟩
    refine ⟨hextends, ?_⟩
    intro env m hwithin hreaches
    obtain ⟨env', hreaches', hkeeps, hvalue⟩ :=
      cellLoad_reaches hc hn hp hcell (nativeType_eq_ok hty) hwithin hreaches
    refine ⟨env', _, hreaches', hkeeps, Nat.lt_succ_self _, hvalue, ?_, fun _ => rfl⟩
    intro origin horigin'
    rw [hresolve] at horigin'
    contradiction

theorem arguments_reach (hc : c.Hosts R g r values cells) {n : Node} (hn : n ∈ g.nodes)
    {ports : List Port} (hports : ∀ p ∈ ports, p ∈ n.inputs) {vs : List Var}
    (h : (c.arguments n d ports).run t = (.ok (vs, d'), t')) :
    d.Extends d' ∧ ∀ env m, d'.Within R.function → Reaches R d env m →
      ∃ env' words, Reaches R d' env' m ∧
        List.Forall₂ (fun (v : Nat) w => v < d'.next ∧ env'.lookup v = some w) vs words ∧
        List.Forall₂ (InputCarries g (r.graphInputs.zip values) cells n) ports words ∧
        d.Keeps env d' env' := by
  induction ports generalizing d vs t with
  | nil =>
      cases h
      exact ⟨.refl _, fun env m _ hreaches => ⟨env, [], hreaches, .nil, .nil, .refl _ env⟩⟩
  | cons p ports ih =>
      obtain ⟨v, rest, d₁, t₁, hfirst, hrest, rfl⟩ := arguments_cons_eq_ok h
      obtain ⟨hext₁, hstep⟩ := argument_reaches hc hn (hports p List.mem_cons_self) hfirst
      obtain ⟨hext₂, hsteps⟩ := ih (fun q hq => hports q (List.mem_cons_of_mem _ hq)) hrest
      refine ⟨hext₁.trans hext₂, ?_⟩
      intro env m hwithin hreaches
      obtain ⟨env₁, w, hreaches₁, hkeeps₁, hlt, hw, hinput⟩ :=
        hstep env m (hext₂.within hwithin) hreaches
      obtain ⟨env₂, words, hreaches₂, hwords, hinputs, hkeeps₂⟩ := hsteps env₁ m hwithin hreaches₁
      refine ⟨env₂, w :: words, hreaches₂, .cons ⟨?_, ?_⟩ hwords, .cons hinput hinputs,
        hkeeps₁.trans hkeeps₂⟩
      · exact Nat.lt_of_lt_of_le hlt hkeeps₂.next_le
      · rw [hkeeps₂.lookup_eq v hlt]
        exact hw

/-! ## Calls -/

theorem outputSlots_reaches (R : EntryRun) {types : List Ty} {vs : List Var}
    (h : outputSlots d types = (vs, d')) :
    d'.slots = d.slots ++ types.map Ty.size ∧ d'.globals = d.globals ∧
      d'.callees = d.callees ∧ d.body <+: d'.body ∧
        ∀ env m, d'.slots <+: R.function.slots → Reaches R d env m →
          ∃ env', Reaches R d' env' m ∧ d.Keeps env d' env' ∧
            List.Forall₂ (fun (v : Nat) w => v < d'.next ∧ env'.lookup v = some w) vs
              (Memory.slotAddresses d.slots.length types.length) := by
  induction types generalizing d vs with
  | nil =>
      cases h
      exact ⟨by simp, rfl, rfl, List.prefix_rfl,
        fun env m _ hreaches => ⟨env, hreaches, .refl _ env, .nil⟩⟩
  | cons ty types ih =>
      cases hrest : outputSlots
          ((d.addSlot ty.size).define (.slotAddress d.slots.length)) types with
      | mk rest d₂ =>
          simp only [outputSlots, hrest] at h
          cases h
          obtain ⟨hslots, hglobals, hcallees, hbody, hsteps⟩ := ih hrest
          refine ⟨?_, hglobals, hcallees, (List.prefix_append _ _).trans hbody, ?_⟩
          · rw [hslots]
            exact List.append_assoc _ _ _
          · intro env m hwithin hreaches
            have hadded : Reaches R (d.addSlot ty.size) env m := { hreaches with
              laterSlots := fun k hk => hreaches.laterSlots k (Nat.le_trans
                (Nat.le_of_lt (by simp [addSlot])) hk) }
            have hroom : d.slots.length < R.function.slots.length := by
              have hle := hwithin.length_le
              rw [hslots, List.length_append] at hle
              exact Nat.lt_of_lt_of_le (by simp [define, addSlot])
                (Nat.le_trans (Nat.le_add_right _ _) hle)
            have hdefined := hadded.define (show (Operation.slotAddress d.slots.length).eval
              R.function env m = .ok (.address (.slot d.slots.length)) from if_pos hroom)
            obtain ⟨env', hreaches', hkeeps, hvs⟩ := hsteps _ m hwithin hdefined
            have hlt : d.next < ((d.addSlot ty.size).define (.slotAddress d.slots.length)).next :=
              Nat.lt_succ_self _
            refine ⟨env', hreaches', ?_, .cons ⟨Nat.lt_of_lt_of_le hlt hkeeps.next_le, ?_⟩ ?_⟩
            · refine ⟨Nat.le_trans (Nat.le_of_lt hlt) hkeeps.next_le, ?_⟩
              intro v hv
              rw [hkeeps.lookup_eq v (Nat.lt_trans hv hlt)]
              exact Env.lookup_cons_of_lt hv
            · rw [hkeeps.lookup_eq _ hlt]
              exact List.lookup_cons_self
            · have hlength :
                  ((d.addSlot ty.size).define (.slotAddress d.slots.length)).slots.length =
                    d.slots.length + 1 := List.length_append
              rw [hlength] at hvs
              exact hvs

theorem loadResults_fields (n : Node) (d : EntryDraft) (slot : Nat) (ports : List Port)
    (types : List Ty) :
    (loadResults n d slot ports types).slots = d.slots ∧
      (loadResults n d slot ports types).globals = d.globals ∧
      (loadResults n d slot ports types).callees = d.callees ∧
      d.body <+: (loadResults n d slot ports types).body := by
  induction ports generalizing d slot types with
  | nil =>
      unfold loadResults
      exact ⟨rfl, rfl, rfl, List.prefix_rfl⟩
  | cons p ports ih =>
      cases types with
      | nil =>
          unfold loadResults
          exact ⟨rfl, rfl, rfl, List.prefix_rfl⟩
      | cons ty types =>
          obtain ⟨hslots, hglobals, hcallees, hbody⟩ :=
            ih (d.defineOutput (n.portRef p) (.slotLoad ty slot)) (slot + 1) types
          exact ⟨hslots, hglobals, hcallees, (List.prefix_append _ _).trans hbody⟩

/-- Results that lie in the slots are at hand once they are loaded. -/
theorem loadResults_reaches {n : Node} {slot : Nat} {ports : List Port} {types : List Ty}
    (h : Reaches R d env m)
    (hresults : ∀ k p ty, ports[k]? = some p → types[k]? = some ty →
      slot + k < R.function.slots.length ∧
        ∃ w, m.slots[slot + k]? = some w.image ∧ w.IsScalar ty ∧ R.means (n.portRef p) w) :
    ∃ env', Reaches R (loadResults n d slot ports types) env' m := by
  induction ports generalizing d env slot types with
  | nil =>
      unfold loadResults
      exact ⟨env, h⟩
  | cons p ports ih =>
      cases types with
      | nil =>
          unfold loadResults
          exact ⟨env, h⟩
      | cons ty types =>
          obtain ⟨hroom, w, himage, hscalar, hmeans⟩ := hresults 0 p ty rfl rfl
          have hload : (Operation.slotLoad ty slot).eval R.function env m = .ok w := by
            refine (if_pos hroom).trans (Memory.load_of_bytes? hscalar
              (show m.bytes? (.slot slot) = some w.image from himage) ?_)
            rw [List.drop_zero, ← hscalar.length_image, List.take_length]
          refine ih (h.defineOutput hload hmeans) ?_
          intro k q s hq hs
          rw [Nat.add_assoc, Nat.add_comm 1]
          exact hresults (k + 1) q s hq hs

theorem function_of_lookup (hc : c.Hosts R g r values cells) {n : Node} (hn : n ∈ g.nodes)
    {f : Function} (h : c.functions.lookup n.name = some f) :
    n.IsFunction f ∧ ∀ args m, R.calls f.id args m = f.runLeaf args m := by
  obtain ⟨before, after, hfunctions, -⟩ := List.lookup_eq_some_iff.1 h
  have hmem : (n.name, f) ∈ c.functions := by simp [hfunctions]
  obtain ⟨⟨n', hn', hname, hf⟩, hcalls⟩ := hc.functions _ f hmem
  rw [Graph.eq_of_name_eq hc.wellFormed.names_nodup hn' hn hname] at hf
  exact ⟨hf, hcalls⟩

/-- Slots that a draft will add are still as they were to begin with. -/
theorem hasFreshSlots_of_within (hc : c.Hosts R g r values cells) (hreaches : Reaches R d env m)
    {types : List Ty} (h : d.slots ++ types.map Ty.size <+: R.function.slots) :
    m.HasFreshSlots d.slots.length types := by
  intro k ty hk
  rw [hreaches.laterSlots _ (Nat.le_add_right _ _), hc.slots_eq, List.getElem?_map,
    getElem?_slots h hk]
  rfl

/-- Once its arguments are at hand and slots are there for its results, a node's function is
called and its results are loaded, unless it traps. -/
theorem call_reaches (hc : c.Hosts R g r values cells) {n : Node} (hn : n ∈ g.nodes)
    (hfree : ∀ s ∈ r.graphInputs.zip values, s.1.node ≠ n.name) {f : Function}
    (hf : c.functions.lookup n.name = some f) {types : List Ty}
    (htypes : n.portTypes .output = .ok types) {start : Nat}
    (hfresh : m.HasFreshSlots start types) (hstart : start + types.length ≤ d.slots.length)
    (hwithin : d.slots <+: R.function.slots)
    {callee : Nat} (hcallee : R.function.callees[callee]? = some ⟨f.id, f.params⟩)
    {vars : List Var} {words : List Word}
    (hinputs : List.Forall₂ (InputCarries g (r.graphInputs.zip values) cells n) n.inputs words)
    (hvars : List.Forall₂ (fun v w => env.lookup v = some w) vars
      (words ++ Memory.slotAddresses start types.length))
    (h : Reaches R d env m) :
    (g.Proceeds (r.graphInputs.zip values) cells n ∧
      ∃ env' m', Reaches R (loadResults n (d.push (.call callee vars)) start n.outputs types)
        env' m') ∨
    g.Sticks (r.graphInputs.zip values) cells n ∧
      Traps R (d.push (.call callee vars)) := by
  obtain ⟨⟨id, name, inputs, outputs, hin, hout, hfunction⟩, hcalls⟩ :=
    function_of_lookup hc hn hf
  rw [htypes] at hout
  cases hout
  have hplain := Node.plain_of_function hfunction
  have hwords : ∀ w ∈ words, w.toBytes.isSome := by
    intro w hw
    obtain ⟨k, hk⟩ := List.getElem?_of_mem hw
    obtain ⟨p, -, hcarries⟩ := exists_of_forall₂ hinputs hk
    exact hcarries.toBytes
  have hlength : m.slots.length = R.function.slots.length := by
    rw [h.slotCount, hc.slots_eq, List.length_map]
  have hroom : start + types.length ≤ m.slots.length := by
    rw [hlength]
    exact Nat.le_trans hstart hwithin.length_le
  have hresults? := Node.results?_of_function hin htypes hfunction
  cases hresults : n.results? words with
  | none =>
      rw [hresults?] at hresults
      obtain ⟨trap, htrap⟩ :=
        Function.runLeaf_of_no_results hplain hwords (by omega) hfresh hresults
      exact .inr ⟨⟨words, hinputs, by rw [hresults?]; exact hresults⟩,
        h.traps_call hcallee hvars ((hcalls _ _).trans htrap)⟩
  | some results =>
      rw [hresults?] at hresults
      obtain ⟨hscalars, hrun⟩ :=
        Function.runLeaf_of_results hplain hwords (by omega) hfresh hresults
      rw [← hresults?] at hresults
      have hcount : (results.map Word.image).length = types.length := by
        rw [List.length_map, List.Forall₂.length_eq hscalars]
      have hcalled := h.call hcallee hvars (by omega) ((hcalls _ _).trans hrun)
      have hloaded : ∀ k p ty, n.outputs[k]? = some p → types[k]? = some ty →
          start + k < R.function.slots.length ∧
          ∃ w, (m.fillSlots start (results.map Word.image)).slots[start + k]? = some w.image ∧
            w.IsScalar ty ∧ R.means (n.portRef p) w := by
        intro k p ty hp hty
        have hk : k < types.length := (List.getElem?_eq_some_iff.1 hty).1
        rcases hscalars.getElem? k with ⟨hnone, -⟩ | ⟨ty', w, hty', hw, hscalar⟩
        · rw [hty] at hnone
          contradiction
        · rw [hty] at hty'
          cases hty'
          refine ⟨by omega, w, ?_, hscalar, ?_⟩
          · apply Memory.getElem?_fillSlots
            · rw [List.getElem?_map, hw]
              rfl
            · omega
          · rw [hc.means_eq]
            exact Graph.carries_of_results hc.wellFormed hn hfree hinputs hresults hp hw
      obtain ⟨env', hreaches⟩ := loadResults_reaches hcalled hloaded
      exact .inl ⟨⟨words, results, hinputs, hresults⟩, env', _, hreaches⟩

theorem call_leadsTo (hc : c.Hosts R g r values cells) {n : Node} (hn : n ∈ g.nodes)
    (hfree : ∀ s ∈ r.graphInputs.zip values, s.1.node ≠ n.name)
    (h : (c.call n d).run t = (.ok d', t')) :
    LeadsTo R (g.Proceeds (r.graphInputs.zip values) cells n)
      (g.Sticks (r.graphInputs.zip values) cells n) d d' := by
  obtain ⟨args, d₁, types, f, hargs, htypes, hlookup, rfl⟩ := call_eq_ok h
  cases hslots : outputSlots d₁ types with
  | mk addresses d₂ =>
      simp only [callWith, hslots]
      let d₃ := (d₂.addCallee ⟨f.id, f.params⟩).push
        (.call d₂.callees.length (args ++ addresses))
      obtain ⟨hext, harguments⟩ := arguments_reach hc hn (fun _ hp => hp) hargs
      obtain ⟨hslots₂, hglobals₂, hcallees₂, hbody₂, haddresses⟩ := outputSlots_reaches R hslots
      obtain ⟨hslots', hglobals', hcallees', hbody'⟩ := loadResults_fields n d₃ d₁.slots.length
        n.outputs types
      have hext' : d₁.Extends (loadResults n d₃ d₁.slots.length n.outputs types) := by
        refine ⟨hbody₂.trans ((List.prefix_append _ _).trans hbody'), ?_, ?_, ?_⟩
        · rw [hslots']
          exact ⟨_, hslots₂.symm⟩
        · rw [hglobals']
          exact ⟨[], by rw [List.append_nil]; exact hglobals₂.symm⟩
        · rw [hcallees']
          exact ⟨[⟨f.id, f.params⟩], by rw [← hcallees₂]; rfl⟩
      refine ⟨hext.trans hext', ?_⟩
      intro env m hwithin hreaches
      obtain ⟨env₁, words, hreaches₁, hwords, hinputs, -⟩ :=
        harguments env m (hext'.within hwithin) hreaches
      have hwithin₂ : d₂.slots <+: R.function.slots := hslots' ▸ hwithin.slots
      obtain ⟨env₂, hreaches₂, hkeeps₂, hvs⟩ := haddresses env₁ m hwithin₂ hreaches₁
      have hcallee : R.function.callees[d₂.callees.length]? = some ⟨f.id, f.params⟩ := by
        obtain ⟨rest, hrest⟩ := hwithin.callees
        rw [← hrest, hcallees']
        change (d₂.callees ++ [_] ++ rest)[d₂.callees.length]? = _
        simp
      have hvars : List.Forall₂ (fun v w => env₂.lookup v = some w) (args ++ addresses)
          (words ++ Memory.slotAddresses d₁.slots.length types.length) := by
        refine List.rel_append ?_ (hvs.imp fun _ _ hv => hv.2)
        refine hwords.imp fun v w hv => ?_
        rw [hkeeps₂.lookup_eq v hv.1]
        exact hv.2
      have hadded : Reaches R (d₂.addCallee ⟨f.id, f.params⟩) env₂ m := { hreaches₂ with }
      have hstart : d₁.slots.length + types.length ≤ d₂.slots.length := by
        apply Nat.le_of_eq
        rw [hslots₂, List.length_append, List.length_map]
      have hfresh := hasFreshSlots_of_within hc hreaches₁ (hslots₂ ▸ hwithin₂)
      rcases call_reaches (d := d₂.addCallee ⟨f.id, f.params⟩) hc hn hfree hlookup htypes hfresh
        hstart hwithin₂ hcallee hinputs hvars hadded with hproceeds | ⟨hsticks, htraps⟩
      · exact .inl hproceeds
      · exact .inr ⟨hsticks, htraps.of_prefix hbody'⟩

/-! ## The whole function -/

theorem evaluate_leadsTo (hc : c.Hosts R g r values cells) {nodes : List Node}
    (hnodes : ∀ n ∈ nodes, n ∈ g.nodes) (h : (c.evaluate d nodes).run t = (.ok d', t')) :
    LeadsTo R
      (∀ n ∈ nodes, c.plan.bindings.binds n.name = false →
        g.Proceeds (r.graphInputs.zip values) cells n)
      (∃ n ∈ nodes, c.plan.bindings.binds n.name = false ∧
        g.Sticks (r.graphInputs.zip values) cells n) d d' := by
  induction nodes generalizing d t with
  | nil =>
      cases h
      exact .refl _ (by simp) _
  | cons n nodes ih =>
      have hn := hnodes n List.mem_cons_self
      have hrest := fun m hm => hnodes m (List.mem_cons_of_mem _ hm)
      obtain ⟨d₁, t₁, ⟨hbinds, hload, rfl⟩ | ⟨hbinds, hcall⟩, h₁⟩ := evaluate_cons_eq_ok h
      · refine (loadBound_leadsTo hc hn (fun _ hp => hp) hload).trans (ih hrest h₁) ?_ ?_
        · intro _ hproceeds
          rw [List.forall_mem_cons]
          exact ⟨fun hunbound => by rw [hbinds] at hunbound; contradiction, hproceeds⟩
        · rintro (hnever | ⟨k, hk, hsticks⟩)
          · exact hnever.elim
          · exact ⟨k, List.mem_cons_of_mem _ hk, hsticks⟩
      · have hfree : ∀ s ∈ r.graphInputs.zip values, s.1.node ≠ n.name := by
          intro s hs hnode
          refine Bool.eq_false_iff.1 hbinds ?_
          exact (hc.plan.bindings.binds_iff n.name).2 ⟨s.1, (List.of_mem_zip hs).1, hnode⟩
        refine (call_leadsTo hc hn hfree hcall).trans (ih hrest h₁) ?_ ?_
        · intro hfirst hproceeds
          rw [List.forall_mem_cons]
          exact ⟨fun _ => hfirst, hproceeds⟩
        · rintro (hsticks | ⟨k, hk, hsticks⟩)
          · exact ⟨n, List.mem_cons_self, hbinds, hsticks⟩
          · exact ⟨k, List.mem_cons_of_mem _ hk, hsticks⟩

theorem storeOutputs_fields {field : Nat} {outputs : List TypedPort}
    (h : c.storeOutputs d field outputs = .ok d') :
    d'.slots = d.slots ∧ d'.globals = d.globals ∧ d'.callees = d.callees ∧ d.body <+: d'.body := by
  induction outputs generalizing d field with
  | nil =>
      cases h
      exact ⟨rfl, rfl, rfl, List.prefix_rfl⟩
  | cons typed outputs ih =>
      obtain ⟨v, offset, -, -, h₁⟩ := storeOutputs_cons_eq_ok h
      obtain ⟨hslots, hglobals, hcallees, hbody⟩ := ih h₁
      exact ⟨hslots, hglobals, hcallees, (List.prefix_append _ _).trans hbody⟩

/-- Storing the requested values fills the output record with their words. -/
theorem storeOutputs_runs {field : Nat} {outputs : List TypedPort}
    (h : c.storeOutputs d field outputs = .ok d')
    (houtput : env.lookup 1 = some (.address .output))
    (hvalues : ∀ port v, d.values.lookup port = some v →
      ∃ w, env.lookup v = some w ∧ R.means port w)
    (hscalar : ∀ port w, R.means port w → ∃ ty, w.IsScalar ty)
    (hrun : runBody R.calls R.function EntryRun.started R.memory d.body = .ok (env, m)) :
    ∃ words, List.Forall₂ (fun (typed : TypedPort) w => R.means typed.1 w) outputs words ∧
      runBody R.calls R.function EntryRun.started R.memory d'.body = .ok (env,
        { m with output := c.plan.outputLayout.fill m.output field (words.map Word.image) }) := by
  induction outputs generalizing d field m with
  | nil =>
      cases h
      exact ⟨[], .nil, hrun⟩
  | cons typed outputs ih =>
      obtain ⟨source, ty⟩ := typed
      obtain ⟨v, offset, hvalue, hoffset, h₁⟩ := storeOutputs_cons_eq_ok h
      obtain ⟨w, hw, hmeans⟩ := hvalues source v hvalue
      obtain ⟨native, hw'⟩ := hscalar source w hmeans
      have hstore : m.store w .output offset =
          .ok (m.put .output (Bytes.overwrite m.output offset w.image)) :=
        Memory.store_of_bytes? hw' rfl
      have hpushed : runBody R.calls R.function EntryRun.started R.memory
          (d.push (.store v 1 offset)).body =
            .ok (env, { m with output := Bytes.overwrite m.output offset w.image }) := by
        change runBody _ _ _ _ (d.body ++ [.store v 1 offset]) = _
        rw [runBody_append_of_ok hrun, runBody_store hw houtput hstore]
        rfl
      obtain ⟨words, hwords, hrun'⟩ := ih h₁ hvalues hpushed
      refine ⟨w :: words, .cons hmeans hwords, ?_⟩
      rw [hrun', List.map_cons, RecordLayout.fill, hoffset]

theorem start_reaches (R : EntryRun) : Reaches R .start EntryRun.started R.memory where
  runs := rfl
  two_le_next := Nat.le_refl _
  input := rfl
  output := rfl
  inputRecord := rfl
  outputRecord := rfl
  cells := rfl
  slotCount := rfl
  laterSlots := fun _ _ => rfl
  values := fun _ _ h => by contradiction

theorem run_entryOf {id : Nat} {name : String} (hfunction : R.function = entryOf id name d) :
    R.function.run R.calls [.address .input, .address .output] R.memory =
      (runBody R.calls R.function EntryRun.started R.memory d.body).map Prod.snd := by
  have hblock : R.function.blocks[0]? = some ⟨[(0, .address), (1, .address)], d.body, .leave⟩ := by
    rw [hfunction]
    rfl
  rw [Function.run, runBlocks_leave hblock rfl]
  rfl

/-- The entry function leaves the words of the requested outputs in the output record, unless one
of the functions it calls traps. -/
theorem generate_runs (hc : c.Hosts R g r values cells) {name : String}
    (h : (c.generate name).run t = (.ok R.function, t')) :
    ((∀ n ∈ c.plan.called, g.Proceeds (r.graphInputs.zip values) cells n) ∧
      ∃ words m, List.Forall₂ (fun (typed : TypedPort) w =>
          g.Carries (r.graphInputs.zip values) cells typed.1 w) c.plan.outputs words ∧
        R.function.run R.calls [.address .input, .address .output] R.memory = .ok m ∧
        m.output = c.plan.outputLayout.fill R.memory.output 0 (words.map Word.image)) ∨
    (∃ n ∈ c.plan.called, g.Sticks (r.graphInputs.zip values) cells n) ∧
      ∃ trap, R.function.run R.calls [.address .input, .address .output] R.memory =
        .error trap := by
  obtain ⟨id, t₁, d, d', -, hevaluate, hstore, hfunction⟩ := generate_eq_ok h
  obtain ⟨hslots, hglobals, hcallees, hbody⟩ := storeOutputs_fields hstore
  have hwithin : d.Within R.function := by
    rw [hfunction]
    exact ⟨hslots ▸ List.prefix_rfl, hglobals ▸ List.prefix_rfl, hcallees ▸ List.prefix_rfl⟩
  have hcalled : ∀ n, n ∈ c.plan.called ↔ n ∈ c.plan.order ∧
      c.plan.bindings.binds n.name = false := by
    intro n
    rw [UnitPlan.called, List.mem_filter, Bool.not_eq_true']
  rw [run_entryOf hfunction]
  rcases (evaluate_leadsTo hc hc.plan.order hevaluate).reaches _ _ hwithin (start_reaches R) with
    ⟨hproceeds, env, m, hreaches⟩ | ⟨⟨n, hn, hbinds, hsticks⟩, htraps⟩
  · have hvalues : ∀ port v, d.values.lookup port = some v →
        ∃ w, env.lookup v = some w ∧ R.means port w :=
      fun port v hv => (hreaches.values port v hv).2
    have hscalar : ∀ port w, R.means port w → ∃ ty, w.IsScalar ty := by
      intro port w hmeans
      rw [hc.means_eq] at hmeans
      exact ⟨w.ty, rfl, hmeans.toBytes⟩
    obtain ⟨words, hwords, hrun⟩ := storeOutputs_runs hstore hreaches.output hvalues hscalar
      hreaches.runs
    rw [hc.means_eq] at hwords
    rw [hreaches.outputRecord] at hrun
    refine .inl ⟨fun n hn => hproceeds n ((hcalled n).1 hn).1 ((hcalled n).1 hn).2, words,
      { m with output := c.plan.outputLayout.fill R.memory.output 0 (words.map Word.image) },
      hwords, ?_, rfl⟩
    rw [hrun]
    rfl
  · obtain ⟨trap, htrap⟩ := htraps.of_prefix hbody
    refine .inr ⟨⟨n, (hcalled n).2 ⟨hn, hbinds⟩, hsticks⟩, trap, ?_⟩
    rw [htrap]
    rfl

end EntryContext

end Dataflow
