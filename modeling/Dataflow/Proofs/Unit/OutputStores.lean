import Dataflow.Proofs.Unit.Invocation
import Dataflow.Proofs.Unit.Planning

/-!
# What the entry function stores

The stores of an entry function go to the fields of the output record, one after the other, and
the value stored to a field has the type of the port that answers for the requested output. The
field has the type of the requested output itself. `UnitPlan.Parts.filledBy_iff`: the record is
filled with values of the right types exactly when the two agree for every requested output.
-/

namespace Dataflow

open Ir

/-! ## Stores of code -/

namespace Ir

/-- A store: the type of the value, the address it goes through and the distance from there. -/
structure Store where
  type : Option Ty
  base : Var
  offset : Nat
deriving DecidableEq, Repr

/-- The store changes the byte at this distance from its address. -/
def Store.Writes (s : Store) (k : Nat) : Prop :=
  ∃ ty, s.type = some ty ∧ s.offset ≤ k ∧ k < s.offset + ty.size

def Instr.stores (types : TypeEnv) : Instr → List Store
  | store value base offset => [⟨types.lookup value, base, offset⟩]
  | _ => []

/-- The types of all values once the body is through. -/
def typesAfter (types : TypeEnv) (body : List Instr) : TypeEnv := body.foldl Instr.extend types

def bodyStores (types : TypeEnv) : List Instr → List Store
  | [] => []
  | i :: is => i.stores types ++ bodyStores (i.extend types) is

def blockStores (types : TypeEnv) : List Block → List Store
  | [] => []
  | b :: bs =>
      let types := b.params.reverse ++ types
      bodyStores types b.body ++ blockStores (typesAfter types b.body) bs

/-- All stores of a function, in the order of its code. -/
def Function.stores (f : Function) : List Store := blockStores [] f.blocks

theorem bodyStores_append (types : TypeEnv) (is js : List Instr) :
    bodyStores types (is ++ js) = bodyStores types is ++ bodyStores (typesAfter types is) js := by
  induction is generalizing types with
  | nil => rfl
  | cons i is ih =>
      rw [List.cons_append, bodyStores, ih, bodyStores, List.append_assoc]
      rfl

end Ir

namespace RecordLayout

variable {layout : RecordLayout} {f : Function}

/-- The store of a value to a field of the record that value 1 points to. -/
def storeTo (field : Field) (ty : DataType) : Store := ⟨ty.native, 1, field.offset⟩

/-- The function stores a value of the right type to each field and nothing else. -/
def FilledBy (layout : RecordLayout) (f : Function) : Prop :=
  f.stores = layout.fields.map fun field => storeTo field field.dataType

/-- Each store stays inside the record and off the other fields. -/
def Contains (layout : RecordLayout) (stores : List Store) : Prop :=
  ∀ (i : Nat) (s : Store) (k : Nat), stores[i]? = some s → s.Writes k → k < layout.size ∧
    ∀ (j : Nat) (field : Field), layout.fields[j]? = some field →
      field.offset ≤ k → k < field.stop → j = i

theorem FilledBy.contains (h : layout.FilledBy f) (hpacked : layout.Packed) :
    layout.Contains f.stores := by
  rintro i s k hs ⟨ty, hty, hle, hlt⟩
  rw [h, List.getElem?_map, Option.map_eq_some_iff] at hs
  obtain ⟨own, hown, rfl⟩ := hs
  have hstop : own.stop = own.offset + ty.size := by
    unfold Field.stop Field.width
    rw [DataType.size_of_native hty]
    rfl
  have hinside : own.offset ≤ k ∧ k < own.stop := ⟨hle, hstop ▸ hlt⟩
  refine ⟨Nat.lt_of_lt_of_le hinside.2 (hpacked.bounded own (List.mem_of_getElem? hown)), ?_⟩
  intro j field hfield hfrom hto
  rcases Nat.lt_trichotomy i j with hij | rfl | hij
  · have hapart := hpacked.stop_le_offset hown hfield hij
    omega
  · rfl
  · have hapart := hpacked.stop_le_offset hfield hown hij
    omega

end RecordLayout

/-! ## Types of drafts -/

namespace EntryDraft

variable {g : Graph} {d : EntryDraft}

/-- The types that the entry function starts from: two addresses. -/
def entryTypes : TypeEnv := [(1, .address), (0, .address)]

def types (d : EntryDraft) : TypeEnv := typesAfter entryTypes d.body

def stores (d : EntryDraft) : List Store := bodyStores entryTypes d.body

theorem types_push (d : EntryDraft) (i : Instr) : (d.push i).types = i.extend d.types := by
  simp [types, typesAfter, push]

theorem types_define (d : EntryDraft) (op : Operation) :
    (d.define op).types = (Instr.define d.next op).extend d.types :=
  d.types_push _

theorem stores_push (d : EntryDraft) (i : Instr) :
    (d.push i).stores = d.stores ++ i.stores d.types := by
  simp [stores, types, push, bodyStores_append, bodyStores]

/-- The values at hand have the types of their outputs, and nothing is stored so far. -/
structure Typed (d : EntryDraft) (g : Graph) : Prop where
  values : ∀ port v, d.values.lookup port = some v → v < d.next ∧
    ∃ ty native, g.HasOutput port ty ∧ ty.native = some native ∧ d.types.lookup v = some native
  stores : d.stores = []

theorem typed_start (g : Graph) : start.Typed g := ⟨fun _ _ h => by contradiction, rfl⟩

theorem Typed.define (h : d.Typed g) (op : Operation) : (d.define op).Typed g := by
  refine ⟨?_, ?_⟩
  · intro port v hv
    obtain ⟨hlt, ty, native, houtput, hnative, htype⟩ := h.values port v hv
    refine ⟨Nat.lt_succ_of_lt hlt, ty, native, houtput, hnative, ?_⟩
    rw [types_define, lookup_extend_of_lt hlt]
    exact htype
  · exact (d.stores_push (.define d.next op)).trans (by rw [h.stores]; rfl)

theorem Typed.defineOutput (h : d.Typed g) {port : PortRef} {ty : DataType} {native : Ty}
    (houtput : g.HasOutput port ty) (hnative : ty.native = some native) {op : Operation}
    (hop : op.resultType d.types = some native) : (d.defineOutput port op).Typed g := by
  have hdefine := h.define op
  refine ⟨?_, hdefine.stores⟩
  intro other v hv
  change List.lookup other ((port, d.next) :: d.values) = some v at hv
  rw [List.lookup_cons] at hv
  split at hv
  · rename_i hother
    cases hv
    rw [beq_iff_eq.1 hother]
    refine ⟨Nat.lt_succ_self _, ty, native, houtput, hnative, ?_⟩
    change (d.define op).types.lookup d.next = _
    rw [types_define, Instr.extend, hop]
    exact List.lookup_cons_self
  · exact hdefine.values other v hv

theorem Typed.call (h : d.Typed g) (callee : Nat) (args : List Var) :
    (d.push (.call callee args)).Typed g := by
  refine ⟨?_, ?_⟩
  · intro port v hv
    rw [types_push]
    exact h.values port v hv
  · rw [stores_push, h.stores]
    rfl

end EntryDraft

namespace EntryContext

variable {c : EntryContext} {g : Graph} {d d' : EntryDraft} {n : Node} {t t' : SymbolTable}
  {ports : List Port}

theorem hasOutput_of_mem (hg : g.WellFormed) (hn : n ∈ g.nodes) {p : Port}
    (hp : p ∈ n.outputs) : g.HasOutput (n.portRef p) p.dataType :=
  ⟨p, hg.port_of_mem hn (show p ∈ n.ports .output from hp), rfl⟩

theorem typed_loadBound (hg : g.WellFormed) (hn : n ∈ g.nodes)
    (hports : ∀ p ∈ ports, p ∈ n.outputs) (hd : d.Typed g)
    (h : c.loadBound n d ports = .ok d') : d'.Typed g := by
  induction ports generalizing d with
  | nil =>
      cases h
      exact hd
  | cons p ports ih =>
      obtain ⟨slot, ty, offset, -, hty, -, h₁⟩ := loadBound_cons_eq_ok h
      have houtput := hasOutput_of_mem hg hn (hports p List.mem_cons_self)
      exact ih (fun q hq => hports q (List.mem_cons_of_mem _ hq))
        (hd.defineOutput houtput (nativeType_eq_ok hty) rfl) h₁

theorem typed_arguments (hd : d.Typed g) {vs : List Var}
    (h : (c.arguments n d ports).run t = (.ok (vs, d'), t')) : d'.Typed g := by
  induction ports generalizing d t vs with
  | nil =>
      cases h
      exact hd
  | cons p ports ih =>
      obtain ⟨v, rest, d₁, t₁, hfirst, hrest, rfl⟩ := arguments_cons_eq_ok h
      refine ih ?_ hrest
      obtain ⟨ty, -, ⟨_, -, -, rfl, -⟩ | ⟨-, cell, linkage, -, -, -, rfl⟩⟩ := argument_eq_ok hfirst
      · exact hd
      · have hadded : (d.addGlobal cell.symbol linkage.isFinal).Typed g := ⟨hd.values, hd.stores⟩
        exact (hadded.define _).define _

theorem typed_outputSlots (hd : d.Typed g) (types : List Ty) :
    (outputSlots d types).2.Typed g := by
  induction types generalizing d with
  | nil => exact hd
  | cons ty types ih =>
      have hadded : (d.addSlot ty.size).Typed g := ⟨hd.values, hd.stores⟩
      exact ih (hadded.define _)

theorem typed_loadResults (hg : g.WellFormed) (hn : n ∈ g.nodes)
    (hports : ∀ p ∈ ports, p ∈ n.outputs) (hd : d.Typed g) (slot : Nat) {types : List Ty}
    (htypes : List.Forall₂ (fun p ty => nativeType (n.portRef p) p.dataType = .ok ty)
      ports types) :
    (loadResults n d slot ports types).Typed g := by
  induction htypes generalizing d slot with
  | nil =>
      unfold loadResults
      exact hd
  | cons hty _ ih =>
      have houtput := hasOutput_of_mem hg hn (hports _ List.mem_cons_self)
      exact ih (fun q hq => hports q (List.mem_cons_of_mem _ hq))
        (hd.defineOutput houtput (nativeType_eq_ok hty) rfl) (slot + 1)

theorem typed_call (hg : g.WellFormed) (hn : n ∈ g.nodes) (hd : d.Typed g)
    (h : (c.call n d).run t = (.ok d', t')) : d'.Typed g := by
  obtain ⟨args, d₁, types, f, hargs, htypes, -, rfl⟩ := call_eq_ok h
  have hd₂ := typed_outputSlots (typed_arguments hd hargs) types
  have hadded : ((outputSlots d₁ types).2.addCallee ⟨f.id, f.params⟩).Typed g :=
    ⟨hd₂.values, hd₂.stores⟩
  exact typed_loadResults hg hn (fun _ hp => hp) (hadded.call _ _) _
    (forall₂_of_mapM_eq_ok htypes)

/-- Loading bound nodes and calling computed ones gives values of the types of their outputs. -/
theorem typed_evaluate (hg : g.WellFormed) {nodes : List Node}
    (hnodes : ∀ n ∈ nodes, n ∈ g.nodes) (hd : d.Typed g)
    (h : (c.evaluate d nodes).run t = (.ok d', t')) : d'.Typed g := by
  induction nodes generalizing d t with
  | nil =>
      cases h
      exact hd
  | cons n nodes ih =>
      have hn := hnodes n List.mem_cons_self
      have hrest := fun m hm => hnodes m (List.mem_cons_of_mem _ hm)
      obtain ⟨d₁, t₁, ⟨-, hload, rfl⟩ | ⟨-, hcall⟩, h₁⟩ := evaluate_cons_eq_ok h
      · exact ih hrest (typed_loadBound hg hn (fun _ hp => hp) hd hload) h₁
      · exact ih hrest (typed_call hg hn hd hcall) h₁

/-! ## Stores of entry functions -/

/-- The source has an output of this type, which values can be handed over in. -/
def Answers (g : Graph) (typed : TypedPort) (ty : DataType) : Prop :=
  g.HasOutput typed.1 ty ∧ ty ≠ .handle

/-- Each requested value is stored to its field in the type of its source. -/
theorem stores_storeOutputs {field : Nat} {outputs : List TypedPort}
    (hvalues : ∀ port v, d.values.lookup port = some v →
      ∃ ty native, g.HasOutput port ty ∧ ty.native = some native ∧ d.types.lookup v = some native)
    (h : c.storeOutputs d field outputs = .ok d') :
    ∃ types, List.Forall₂ (Answers g) outputs types ∧
      d'.stores = d.stores ++
        List.zipWith RecordLayout.storeTo (c.plan.outputLayout.fields.drop field) types := by
  induction outputs generalizing d field with
  | nil =>
      cases h
      exact ⟨[], .nil, by simp⟩
  | cons typed outputs ih =>
      obtain ⟨source, _⟩ := typed
      obtain ⟨v, offset, hvalue, hoffset, h₁⟩ := storeOutputs_cons_eq_ok h
      obtain ⟨ty, native, houtput, hnative, htype⟩ := hvalues source v hvalue
      have hstored : (d.push (.store v 1 offset)).stores =
          d.stores ++ [⟨ty.native, 1, offset⟩] := by
        rw [EntryDraft.stores_push, hnative, ← htype]
        rfl
      have hkept : (d.push (.store v 1 offset)).types = d.types := d.types_push _
      obtain ⟨types, hanswers, hstores⟩ := ih (by rw [hkept]; exact hvalues) h₁
      refine ⟨ty :: types, .cons ⟨houtput, ?_⟩ hanswers, ?_⟩
      · exact DataType.exists_native_iff.1 ⟨native, hnative⟩
      · obtain ⟨own, hown, rfl⟩ := Option.map_eq_some_iff.1 hoffset
        obtain ⟨hlt, rfl⟩ := List.getElem?_eq_some_iff.1 hown
        rw [hstores, hstored, List.drop_eq_getElem_cons hlt, List.zipWith_cons_cons,
          List.append_assoc]
        rfl

theorem stores_generate (hg : g.WellFormed) (horder : ∀ n ∈ c.plan.order, n ∈ g.nodes)
    {name : String} {f : Function} (h : (c.generate name).run t = (.ok f, t')) :
    ∃ types, List.Forall₂ (Answers g) c.plan.outputs types ∧
      f.stores = List.zipWith RecordLayout.storeTo c.plan.outputLayout.fields types := by
  obtain ⟨id, t₁, d, d', -, hevaluate, hstore, rfl⟩ := generate_eq_ok h
  have hd := typed_evaluate hg horder (EntryDraft.typed_start g) hevaluate
  obtain ⟨types, hanswers, hstores⟩ :=
    stores_storeOutputs (fun port v hv => (hd.values port v hv).2) hstore
  refine ⟨types, hanswers, ?_⟩
  rw [hd.stores, List.nil_append, List.drop_zero] at hstores
  rw [← hstores]
  change d'.stores ++ [] = _
  rw [List.append_nil]

end EntryContext

/-! ## Types of requested outputs -/

/-- A requested output has the type of the port that answers for it. -/
def Graph.AnswersTyped (g : Graph) (r : UnitRequest) : Prop :=
  ∀ port ∈ r.outputs, ∀ source ty, g.LeadsTo port source → g.HasOutput port ty →
    g.HasOutput source ty

theorem Graph.answersTyped_of_reroutesTyped {g : Graph} (hg : g.WellFormed)
    (h : g.ReroutesTyped) (r : UnitRequest) : g.AnswersTyped r := by
  intro port _ source ty hsource houtput
  exact Graph.hasOutput_resolveFrom? hg h houtput (Graph.resolveFrom?_eq_some_iff.2 hsource)

/-- Types with native images are told apart by them. -/
theorem DataType.native_inj {s ty : DataType} (hs : s ≠ .handle) :
    s.native = ty.native ↔ s = ty := by
  cases s <;> cases ty <;> simp_all [DataType.native]

theorem RecordLayout.zipWith_storeTo_eq_iff {fields : List Field} {types : List DataType}
    (hlength : types.length = fields.length) (hnative : ∀ ty ∈ types, ty ≠ .handle) :
    List.zipWith storeTo fields types = (fields.map fun field => storeTo field field.dataType) ↔
      types = fields.map Field.dataType := by
  induction fields generalizing types with
  | nil => simp [List.length_eq_zero_iff.1 hlength]
  | cons field fields ih =>
      cases types with
      | nil => contradiction
      | cons ty types =>
          rw [List.forall_mem_cons] at hnative
          have hstore : storeTo field ty = storeTo field field.dataType ↔ ty = field.dataType := by
            rw [← DataType.native_inj hnative.1]
            simp [storeTo]
          rw [List.zipWith_cons_cons, List.map_cons, List.map_cons, List.cons.injEq,
            List.cons.injEq, ih (by simpa using hlength) hnative.2, hstore]

theorem forall₂_answers_eq_iff {g : Graph} {outputs : List TypedPort} {types : List DataType}
    (h : List.Forall₂ (EntryContext.Answers g) outputs types) :
    types = outputs.map Prod.snd ↔ ∀ typed ∈ outputs, g.HasOutput typed.1 typed.2 := by
  induction h with
  | nil => simp
  | cons hfirst _ ih =>
      rw [List.map_cons, List.cons.injEq, List.forall_mem_cons, ih]
      refine and_congr_left fun _ => ⟨?_, ?_⟩
      · rintro rfl
        exact hfirst.1
      · exact hfirst.1.unique

variable {g : Graph} {r : UnitRequest} {plan : UnitPlan}

theorem UnitPlan.Parts.answersTyped_iff (h : plan.Parts g r) :
    g.AnswersTyped r ↔ ∀ typed ∈ plan.outputs, g.HasOutput typed.1 typed.2 := by
  have houtputs := mapM_eq_ok_iff.1 h.outputs
  constructor
  · rintro htyped ⟨source, ty⟩ hmem
    obtain ⟨port, hport, hresolve⟩ := exists_mem_of_forall₂ houtputs hmem
    obtain ⟨houtput, -, hsource⟩ := resolveOutput_eq_ok_iff.1 hresolve
    exact htyped port hport source ty hsource houtput
  · intro htyped port hport source ty hsource houtput
    obtain ⟨⟨source', ty'⟩, hmem, hresolve⟩ := exists_mem_of_forall₂ houtputs.flip hport
    obtain ⟨houtput', -, hsource'⟩ := resolveOutput_eq_ok_iff.1 hresolve
    cases hsource.unique hsource'
    cases houtput.unique houtput'
    exact htyped _ hmem

/-- The entry function fills the output record with values of the right types exactly when each
requested output has the type of the port that answers for it. -/
theorem UnitPlan.Parts.filledBy_iff (hg : g.WellFormed) (h : plan.Parts g r)
    {c : EntryContext} (hc : c.plan = plan) {name : String} {f : Function} {t t' : SymbolTable}
    (hgenerate : (c.generate name).run t = (.ok f, t')) :
    plan.outputLayout.FilledBy f ↔ g.AnswersTyped r := by
  subst hc
  obtain ⟨types, hanswers, hstores⟩ :=
    EntryContext.stores_generate hg (evaluationOrder_eq_ok h.order) hgenerate
  have hfields := (RecordLayout.ofTypes_eq_ok (RecordLayout.forPorts_eq_ok h.outputLayout)).2
  have hlength : types.length = c.plan.outputLayout.fields.length := by
    rw [RecordLayout.length_fields h.outputLayout, hanswers.length_eq]
  have hnative : ∀ ty ∈ types, ty ≠ .handle := by
    intro ty hty
    obtain ⟨_, -, -, hne⟩ := exists_mem_of_forall₂ hanswers hty
    exact hne
  rw [h.answersTyped_iff, ← forall₂_answers_eq_iff hanswers, ← hfields, RecordLayout.FilledBy,
    hstores, RecordLayout.zipWith_storeTo_eq_iff hlength hnative]

end Dataflow
