import Dataflow.Proofs.Unit.Declared
import Dataflow.Proofs.Unit.OutputStores

/-!
# Entry functions pass the type check

The entry function of a unit is made of loads, calls and stores. An argument has the type of the
output that its data comes from, and all other operands have the types they should have. So the
function passes the type check exactly when the inputs of the called nodes read outputs of their
own types: `EntryContext.wellTyped_generate_iff`. They do where reroutes hand on the type of their
input: `Graph.ReroutesTyped.fed`.
-/

namespace Dataflow

open Ir

theorem Ir.bodyWellTyped_append (f : Function) (types : TypeEnv) (is js : List Instr) :
    (bodyWellTyped f types (is ++ js)).1 =
      ((bodyWellTyped f types is).1 && (bodyWellTyped f (typesAfter types is) js).1) := by
  induction is generalizing types with
  | nil => rfl
  | cons i is ih =>
      rw [List.cons_append, bodyWellTyped_cons, bodyWellTyped_cons, ih, Bool.and_assoc]
      rfl

/-! ## Drafts -/

namespace EntryDraft

variable {d d' d'' : EntryDraft} {f : Function}

/-- The code of the draft passes the check as part of the function. -/
def Checks (d : EntryDraft) (f : Function) : Prop :=
  (bodyWellTyped f entryTypes d.body).1 = true

theorem checks_push {i : Instr} :
    (d.push i).Checks f ↔ d.Checks f ∧ i.wellTyped f d.types = true := by
  unfold Checks
  change (bodyWellTyped f entryTypes (d.body ++ [i])).1 = true ↔ _
  rw [bodyWellTyped_append, Bool.and_eq_true, bodyWellTyped_cons, Bool.and_eq_true]
  exact and_congr_right fun _ => and_iff_left rfl

/-- The addresses of both records are at hand. -/
structure Addressed (d : EntryDraft) : Prop where
  two_le_next : 2 ≤ d.next
  input : d.types.lookup 0 = some .address
  output : d.types.lookup 1 = some .address

theorem addressed_start : start.Addressed := ⟨Nat.le_refl 2, rfl, rfl⟩

/-- The second draft goes on where the first one ends and, if the first one passes the check,
passes it under this condition. -/
structure PassesIf (P : Prop) (d d' : EntryDraft) : Prop where
  continues : d.Extends d'
  next_le : d.next ≤ d'.next
  types_eq : ∀ v : Nat, v < d.next → d'.types.lookup v = d.types.lookup v
  checks : ∀ f, d'.Within f → (d'.Checks f ↔ d.Checks f ∧ P)

/-- The second draft goes on where the first one ends and passes the check if that does. -/
abbrev Passes : EntryDraft → EntryDraft → Prop := PassesIf True

theorem Passes.refl (d : EntryDraft) : d.Passes d :=
  ⟨.refl d, Nat.le_refl _, fun _ _ => rfl, fun _ _ => (and_iff_left trivial).symm⟩

variable {P Q : Prop}

theorem PassesIf.trans (h : PassesIf P d d') (h' : PassesIf Q d' d'') :
    PassesIf (P ∧ Q) d d'' := by
  refine ⟨h.continues.trans h'.continues, Nat.le_trans h.next_le h'.next_le, ?_, ?_⟩
  · intro v hv
    rw [h'.types_eq v (Nat.lt_of_lt_of_le hv h.next_le), h.types_eq v hv]
  · intro f hwithin
    rw [h'.checks f hwithin, h.checks f (h'.continues.within hwithin), and_assoc]

theorem PassesIf.congr (h : PassesIf P d d') (hiff : P ↔ Q) : PassesIf Q d d' :=
  ⟨h.continues, h.next_le, h.types_eq, fun f hwithin => by rw [h.checks f hwithin, hiff]⟩

theorem PassesIf.addressed (h : PassesIf P d d') (hd : d.Addressed) : d'.Addressed := by
  have htwo := hd.two_le_next
  refine ⟨Nat.le_trans htwo h.next_le, ?_, ?_⟩
  · rw [h.types_eq 0 (Nat.lt_of_lt_of_le Nat.zero_lt_two htwo), hd.input]
  · rw [h.types_eq 1 (Nat.lt_of_lt_of_le Nat.one_lt_two htwo), hd.output]

theorem Passes.trans (h : d.Passes d') (h' : d'.Passes d'') : d.Passes d'' :=
  (PassesIf.trans h h').congr (and_iff_left trivial)

/-- Slots, cells and functions can be added without code. -/
theorem passes_of_body (hext : d.Extends d') (hnext : d'.next = d.next)
    (hbody : d'.body = d.body) : d.Passes d' := by
  refine ⟨hext, Nat.le_of_eq hnext.symm, fun v _ => ?_, fun f _ => ?_⟩
  · unfold types
    rw [hbody]
  · unfold Checks
    rw [hbody, and_iff_left trivial]

theorem passesIf_push {i : Instr} (hextend : i.extend d.types = d.types)
    (h : ∀ f, d.Within f → (i.wellTyped f d.types = true ↔ P)) : PassesIf P d (d.push i) := by
  refine ⟨⟨List.prefix_append _ _, List.prefix_rfl, List.prefix_rfl, List.prefix_rfl⟩,
    Nat.le_refl _, ?_, ?_⟩
  · intro v _
    rw [types_push, hextend]
  · intro f hwithin
    rw [checks_push, h f ⟨hwithin.slots, hwithin.globals, hwithin.callees⟩]

theorem passes_push {i : Instr} (hextend : i.extend d.types = d.types)
    (h : ∀ f, d.Within f → i.wellTyped f d.types = true) : d.Passes (d.push i) :=
  passesIf_push hextend fun f hwithin => iff_true_intro (h f hwithin)

theorem passes_define {op : Operation}
    (h : ∀ f, d.Within f → op.wellTyped f d.types = true) : d.Passes (d.define op) := by
  refine ⟨⟨List.prefix_append _ _, List.prefix_rfl, List.prefix_rfl, List.prefix_rfl⟩,
    Nat.le_succ _, ?_, ?_⟩
  · intro v hv
    rw [types_define, lookup_extend_of_lt hv]
  · intro f hwithin
    have hop : op.wellTyped f d.types = true :=
      h f ⟨hwithin.slots, hwithin.globals, hwithin.callees⟩
    exact checks_push.trans (and_congr_right fun _ => iff_true_intro hop)

theorem passes_defineOutput (port : PortRef) {op : Operation}
    (h : ∀ f, d.Within f → op.wellTyped f d.types = true) :
    d.Passes (d.defineOutput port op) :=
  (passes_define h).trans
    (passes_of_body ⟨List.prefix_rfl, List.prefix_rfl, List.prefix_rfl, List.prefix_rfl⟩ rfl rfl)

theorem lookup_define {op : Operation} {ty : Ty} (h : op.resultType d.types = some ty) :
    (d.define op).types.lookup d.next = some ty := by
  rw [types_define, Instr.extend, h]
  exact List.lookup_cons_self

end EntryDraft

/-! ## Entry functions -/

/-- What is known of the context an entry function is made in: the index is that of the graph,
and the functions of nodes take the parameters of the nodes. -/
structure EntryContext.Suits (c : EntryContext) (g : Graph) : Prop where
  wellFormed : g.WellFormed
  index_eq : c.index = Index.build g
  order : ∀ n ∈ c.plan.order, n ∈ g.nodes
  functions : ∀ n ∈ g.nodes, ∀ f, c.functions.lookup n.name = some f → n.params = .ok f.params

namespace Graph

variable {g : Graph} {n : Node} {ports : List Port} {p : Port} {inputs types : List Ty}
  {ty native : Ty}

/-- The value passed for an input has this type: the type of its origin or, where it is loaded
from a cell, the type of the input itself. -/
def Feeds (g : Graph) (n : Node) (p : Port) (ty : Ty) : Prop :=
  (∀ origin, g.resolve? (n.portRef p) = some origin →
    ∃ source, g.HasOutput origin source ∧ source.native = some ty) ∧
  (g.resolve? (n.portRef p) = none → p.dataType.native = some ty)

theorem Feeds.eq_iff (h : g.Feeds n p ty) (hnative : p.dataType.native = some native) :
    ty = native ↔
      ∀ origin, g.resolve? (n.portRef p) = some origin → g.HasOutput origin p.dataType := by
  cases hresolve : g.resolve? (n.portRef p) with
  | none =>
      have hty := h.2 hresolve
      rw [hnative] at hty
      cases hty
      exact iff_of_true rfl fun _ horigin => by contradiction
  | some origin =>
      obtain ⟨source, houtput, hsource⟩ := h.1 origin hresolve
      simp only [Option.some.injEq, forall_eq']
      constructor
      · rintro rfl
        have hne := DataType.exists_native_iff.1 ⟨_, hsource⟩
        rw [← hnative, DataType.native_inj hne] at hsource
        exact hsource ▸ houtput
      · intro htyped
        rw [houtput.unique htyped, hnative] at hsource
        exact (Option.some.inj hsource).symm

/-- What is passed for the inputs has the types of the inputs exactly when they read outputs of
their own types. -/
theorem types_eq_iff
    (hinputs : List.Forall₂ (fun p ty => nativeType (n.portRef p) p.dataType = .ok ty) ports inputs)
    (hfeeds : List.Forall₂ (g.Feeds n) ports types) :
    types = inputs ↔ ∀ p ∈ ports, ∀ origin, g.resolve? (n.portRef p) = some origin →
      g.HasOutput origin p.dataType := by
  induction hinputs generalizing types with
  | nil =>
      cases hfeeds
      simp
  | cons hty _ ih =>
      cases hfeeds with
      | cons hfirst hrest =>
          rw [List.cons.injEq, List.forall_mem_cons, ih hrest,
            hfirst.eq_iff (nativeType_eq_ok hty)]

end Graph

namespace EntryContext

open EntryDraft

variable {c : EntryContext} {g : Graph} {d d' : EntryDraft} {n : Node} {t t' : SymbolTable}
  {ports : List Port}

theorem passes_loadBound (hd : d.Addressed) (h : c.loadBound n d ports = .ok d') :
    d.Passes d' := by
  induction ports generalizing d with
  | nil =>
      cases h
      exact .refl _
  | cons p ports ih =>
      obtain ⟨slot, ty, offset, -, -, -, h₁⟩ := loadBound_cons_eq_ok h
      have hload : d.Passes (d.defineOutput (n.portRef p) (.load ty 0 offset)) :=
        passes_defineOutput _ fun _ _ => by simp [Operation.wellTyped, hd.input]
      exact hload.trans (ih (hload.addressed hd) h₁)

/-- The values have these types. -/
def HaveTypes (d : EntryDraft) : List Var → List Ty → Prop :=
  List.Forall₂ fun v ty => v < d.next ∧ d.types.lookup v = some ty

theorem HaveTypes.passes {vs : List Var} {types : List Ty} (h : HaveTypes d vs types)
    (hpasses : d.Passes d') : HaveTypes d' vs types :=
  h.imp fun v _ hv =>
    ⟨Nat.lt_of_lt_of_le hv.1 hpasses.next_le, (hpasses.types_eq v hv.1).trans hv.2⟩

theorem passes_argument (hc : c.Suits g) (hd : d.Typed g) {p : Port} {v : Var}
    (h : (c.argument n d p).run t = (.ok (v, d'), t')) :
    d.Passes d' ∧ ∃ ty, g.Feeds n p ty ∧ v < d'.next ∧ d'.types.lookup v = some ty := by
  have hindex : c.index.dataOrigin? (n.portRef p) = g.resolve? (n.portRef p) := by
    rw [hc.index_eq, Index.dataOrigin?_build]
  obtain ⟨ty, hty, ⟨origin, horigin, hvalue, rfl, -⟩ |
    ⟨hnone, cell, linkage, -, -, rfl, rfl⟩⟩ := argument_eq_ok h
  · rw [hindex] at horigin
    obtain ⟨hlt, source, native, houtput, hnative, htype⟩ := hd.values origin v hvalue
    refine ⟨.refl d', native, ⟨?_, fun hnone => ?_⟩, hlt, htype⟩
    · intro other hother
      rw [horigin] at hother
      cases hother
      exact ⟨source, houtput, hnative⟩
    · rw [horigin] at hnone
      contradiction
  · rw [hindex] at hnone
    have hadded : d.Passes (d.addGlobal cell.symbol linkage.isFinal) :=
      passes_of_body ⟨List.prefix_rfl, List.prefix_rfl, List.prefix_append _ _, List.prefix_rfl⟩
        rfl rfl
    have haddress : (d.addGlobal cell.symbol linkage.isFinal).Passes
        ((d.addGlobal cell.symbol linkage.isFinal).define (.globalAddress d.globals.length)) := by
      refine passes_define fun f hwithin => ?_
      have hlength := hwithin.globals.length_le
      change (d.globals ++ [_]).length ≤ _ at hlength
      rw [List.length_append, List.length_singleton] at hlength
      exact decide_eq_true hlength
    have hbase : ((d.addGlobal cell.symbol linkage.isFinal).define
        (.globalAddress d.globals.length)).types.lookup d.next = some .address :=
      lookup_define (d := d.addGlobal cell.symbol linkage.isFinal) rfl
    have hload : ((d.addGlobal cell.symbol linkage.isFinal).define
        (.globalAddress d.globals.length)).Passes (cellLoad d cell.symbol linkage.isFinal ty) :=
      passes_define fun _ _ => by simp [Operation.wellTyped, hbase]
    refine ⟨hadded.trans (haddress.trans hload), ty, ⟨?_, fun _ => nativeType_eq_ok hty⟩,
      Nat.lt_succ_self _,
      lookup_define (d := (d.addGlobal cell.symbol linkage.isFinal).define _) rfl⟩
    intro origin horigin
    rw [hnone] at horigin
    contradiction

theorem passes_arguments (hc : c.Suits g) (hd : d.Typed g) {vs : List Var}
    (h : (c.arguments n d ports).run t = (.ok (vs, d'), t')) :
    d.Passes d' ∧ ∃ types, List.Forall₂ (g.Feeds n) ports types ∧ HaveTypes d' vs types := by
  induction ports generalizing d t vs with
  | nil =>
      cases h
      exact ⟨.refl _, [], .nil, .nil⟩
  | cons p ports ih =>
      obtain ⟨v, rest, d₁, t₁, hfirst, hrest, rfl⟩ := arguments_cons_eq_ok h
      obtain ⟨hpasses, ty, hfeeds, hlt, htype⟩ := passes_argument hc hd hfirst
      have hone : (c.arguments n d [p]).run t = (.ok ([v], d₁), t₁) :=
        Generation.run_bind_of_ok hfirst _
      have hd₁ : d₁.Typed g := typed_arguments hd hone
      obtain ⟨hpasses', types, htypes, hvs⟩ := ih hd₁ hrest
      refine ⟨hpasses.trans hpasses', ty :: types, .cons hfeeds htypes, .cons ⟨?_, ?_⟩ hvs⟩
      · exact Nat.lt_of_lt_of_le hlt hpasses'.next_le
      · exact (hpasses'.types_eq v hlt).trans htype

theorem passes_outputSlots {types : List Ty} {vs : List Var}
    (h : outputSlots d types = (vs, d')) :
    d.Passes d' ∧ d'.slots = d.slots ++ types.map Ty.size ∧
      HaveTypes d' vs (types.map fun _ => Ty.address) := by
  induction types generalizing d vs with
  | nil =>
      cases h
      exact ⟨.refl _, (List.append_nil _).symm, .nil⟩
  | cons ty types ih =>
      cases hrest : outputSlots ((d.addSlot ty.size).define (.slotAddress d.slots.length))
          types with
      | mk rest d₂ =>
          simp only [outputSlots, hrest] at h
          cases h
          obtain ⟨hpasses, hslots, hrest'⟩ := ih hrest
          have hadded : d.Passes (d.addSlot ty.size) :=
            passes_of_body ⟨List.prefix_rfl, List.prefix_append _ _, List.prefix_rfl,
              List.prefix_rfl⟩ rfl rfl
          have haddress : (d.addSlot ty.size).Passes
              ((d.addSlot ty.size).define (.slotAddress d.slots.length)) := by
            refine passes_define fun f hwithin => ?_
            have hlength := hwithin.slots.length_le
            change (d.slots ++ [_]).length ≤ _ at hlength
            rw [List.length_append, List.length_singleton] at hlength
            exact decide_eq_true hlength
          have hlookup : ((d.addSlot ty.size).define
              (.slotAddress d.slots.length)).types.lookup d.next = some .address :=
            lookup_define (d := d.addSlot ty.size) rfl
          refine ⟨hadded.trans (haddress.trans hpasses), ?_, .cons ⟨?_, ?_⟩ hrest'⟩
          · rw [hslots]
            exact List.append_assoc _ _ _
          · exact Nat.lt_of_lt_of_le (Nat.lt_succ_self _) hpasses.next_le
          · exact (hpasses.types_eq _ (Nat.lt_succ_self _)).trans hlookup

theorem passes_loadResults {slot : Nat} {types : List Ty}
    (hslots : ∀ f, d.Within f → ∀ k ty, types[k]? = some ty →
      f.slots[slot + k]? = some ty.size) :
    d.Passes (loadResults n d slot ports types) := by
  induction ports generalizing d slot types with
  | nil =>
      unfold loadResults
      exact .refl d
  | cons p ports ih =>
      cases types with
      | nil =>
          unfold loadResults
          exact .refl d
      | cons ty types =>
          have hload : d.Passes (d.defineOutput (n.portRef p) (.slotLoad ty slot)) :=
            passes_defineOutput _ fun f hwithin => by
              have hslot := hslots f hwithin 0 ty rfl
              rw [Nat.add_zero] at hslot
              simp [Operation.wellTyped, hslot]
          refine hload.trans (ih fun f hwithin k s hs => ?_)
          rw [Nat.add_assoc, Nat.add_comm 1]
          exact hslots f ⟨hwithin.slots, hwithin.globals, hwithin.callees⟩ (k + 1) s hs

theorem HaveTypes.argsMatch_iff {vs : List Var} {types params : List Ty}
    (h : HaveTypes d vs types) : argsMatch d.types vs params = true ↔ types = params := by
  have htypes : (vs.map fun v => d.types.lookup v) = types.map some := by
    induction h with
    | nil => rfl
    | cons hv _ ih => rw [List.map_cons, List.map_cons, hv.2, ih]
  unfold argsMatch
  rw [htypes, beq_iff_eq]
  exact List.map_inj_right fun _ _ => Option.some.inj

/-- A call passes the check exactly when the inputs of its node read outputs of their own types. -/
theorem passes_call (hc : c.Suits g) (hn : n ∈ g.nodes) (hd : d.Typed g)
    (h : (c.call n d).run t = (.ok d', t')) : PassesIf (g.Fed n) d d' := by
  obtain ⟨args, d₁, types, f, hargs, htypes, hlookup, rfl⟩ := call_eq_ok h
  obtain ⟨hpasses₁, passed, hfeeds, hvs⟩ := passes_arguments hc hd hargs
  cases hslots : outputSlots d₁ types with
  | mk addresses d₂ =>
      simp only [callWith, hslots]
      obtain ⟨hpasses₂, hslots₂, haddresses⟩ := passes_outputSlots hslots
      obtain ⟨inputs, hinputs, hparams⟩ : ∃ inputs, n.portTypes .input = .ok inputs ∧
          f.params = inputs ++ types.map fun _ => Ty.address := by
        have hknown := hc.functions n hn f hlookup
        obtain ⟨inputs, hinputs, -⟩ := bind_eq_ok hknown
        rw [Node.params_of_portTypes hinputs htypes] at hknown
        exact ⟨inputs, hinputs, (Except.ok.inj hknown).symm⟩
      have hadded : d₂.Passes (d₂.addCallee ⟨f.id, f.params⟩) :=
        passes_of_body ⟨List.prefix_rfl, List.prefix_rfl, List.prefix_rfl,
          List.prefix_append _ _⟩ rfl rfl
      have hvalues : HaveTypes d₂ (args ++ addresses) (passed ++ types.map fun _ => Ty.address) :=
        List.rel_append (hvs.passes hpasses₂) haddresses
      have hcall : PassesIf (g.Fed n) (d₂.addCallee ⟨f.id, f.params⟩)
          ((d₂.addCallee ⟨f.id, f.params⟩).push
            (.call d₂.callees.length (args ++ addresses))) := by
        refine passesIf_push rfl fun k hwithin => ?_
        obtain ⟨rest, hrest⟩ := hwithin.callees
        have hcallee : k.callees[d₂.callees.length]? = some ⟨f.id, f.params⟩ := by
          rw [← hrest]
          change (d₂.callees ++ [_] ++ rest)[d₂.callees.length]? = _
          simp
        simp only [Instr.wellTyped, hcallee]
        rw [(hvalues.passes hadded).argsMatch_iff, hparams, List.append_left_inj]
        exact Graph.types_eq_iff (forall₂_of_mapM_eq_ok hinputs) hfeeds
      have hbefore := hpasses₁.trans (hpasses₂.trans hadded)
      refine ((PassesIf.trans hbefore hcall).trans (passes_loadResults ?_)).congr
        ((and_iff_left trivial).trans (and_iff_right trivial))
      intro k hwithin j ty hty
      -- the slots are those that were added for the results
      have hprefix : d₁.slots ++ types.map Ty.size <+: k.slots := hslots₂ ▸ hwithin.slots
      exact getElem?_slots hprefix hty

theorem passes_evaluate (hc : c.Suits g) {nodes : List Node} (hnodes : ∀ n ∈ nodes, n ∈ g.nodes)
    (htyped : d.Typed g) (hd : d.Addressed) (h : (c.evaluate d nodes).run t = (.ok d', t')) :
    PassesIf (∀ n ∈ nodes, c.plan.bindings.binds n.name = false → g.Fed n) d d' := by
  induction nodes generalizing d t with
  | nil =>
      cases h
      exact (Passes.refl _).congr (by simp)
  | cons n nodes ih =>
      have hn := hnodes n List.mem_cons_self
      have hrest := fun m hm => hnodes m (List.mem_cons_of_mem _ hm)
      obtain ⟨d₁, t₁, ⟨hbound, hload, rfl⟩ | ⟨hfree, hcall⟩, h₁⟩ := evaluate_cons_eq_ok h
      · have hpasses := passes_loadBound hd hload
        have htyped₁ := typed_loadBound hc.wellFormed hn (fun _ hp => hp) htyped hload
        refine (PassesIf.trans hpasses (ih hrest htyped₁ (hpasses.addressed hd) h₁)).congr ?_
        rw [List.forall_mem_cons]
        refine and_congr_left fun _ => iff_of_true trivial fun hfree => ?_
        rw [hbound] at hfree
        contradiction
      · have hpasses := passes_call hc hn htyped hcall
        have htyped₁ := typed_call hc.wellFormed hn htyped hcall
        refine (hpasses.trans (ih hrest htyped₁ (hpasses.addressed hd) h₁)).congr ?_
        rw [List.forall_mem_cons]
        exact and_congr_left fun _ => (imp_iff_right hfree).symm

theorem passes_storeOutputs {field : Nat} {outputs : List TypedPort}
    (hvalues : ∀ port v, d.values.lookup port = some v → ∃ ty, d.types.lookup v = some ty)
    (hd : d.Addressed) (h : c.storeOutputs d field outputs = .ok d') : d.Passes d' := by
  induction outputs generalizing d field with
  | nil =>
      cases h
      exact .refl _
  | cons typed outputs ih =>
      obtain ⟨v, offset, hvalue, -, h₁⟩ := storeOutputs_cons_eq_ok h
      obtain ⟨ty, hty⟩ := hvalues _ v hvalue
      have hstore : d.Passes (d.push (.store v 1 offset)) :=
        passes_push rfl fun _ _ => by simp [Instr.wellTyped, hty, hd.output]
      refine hstore.trans (ih ?_ (hstore.addressed hd) h₁)
      intro port x hx
      rw [types_push]
      exact hvalues port x hx

theorem wellTyped_entryOf {id : Nat} {name : String} :
    (entryOf id name d).wellTyped = true ↔ d.Checks (entryOf id name d) := by
  simp only [entryOf, Function.wellTyped, blocksWellTyped, Bool.and_eq_true]
  exact ⟨fun h => h.2.1.1, fun h => ⟨rfl, ⟨h, rfl⟩, trivial⟩⟩

/-- The entry function of a unit passes the type check exactly when the inputs of the nodes that it
calls read outputs of their own types. -/
theorem wellTyped_generate_iff (hc : c.Suits g) {name : String} {f : Function}
    (h : (c.generate name).run t = (.ok f, t')) :
    f.wellTyped = true ↔ ∀ n ∈ c.plan.called, g.Fed n := by
  obtain ⟨id, t₁, d, d', -, hevaluate, hstore, rfl⟩ := generate_eq_ok h
  have htyped := typed_evaluate hc.wellFormed hc.order (typed_start g) hevaluate
  have hpasses := passes_evaluate hc hc.order (typed_start g) addressed_start hevaluate
  have hvalues : ∀ port v, d.values.lookup port = some v → ∃ ty, d.types.lookup v = some ty := by
    intro port v hv
    obtain ⟨-, -, native, -, -, htype⟩ := htyped.values port v hv
    exact ⟨native, htype⟩
  have hstores := passes_storeOutputs hvalues (hpasses.addressed addressed_start) hstore
  rw [wellTyped_entryOf, (hpasses.trans hstores).checks _
    ⟨List.prefix_rfl, List.prefix_rfl, List.prefix_rfl⟩, and_iff_left trivial,
    and_iff_right (show start.Checks _ from rfl)]
  simp [UnitPlan.called]

end EntryContext

end Dataflow
