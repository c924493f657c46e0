import Dataflow.Proofs.Unit.EntryTypes

/-!
# The code of entry functions

An entry function consists of few forms of instructions, each of them for some port or node: it
loads supplied values and cells, makes room for results, calls nodes and stores what is requested.
`EntryDraft.Accounts` says so of a draft, with the inputs, the results and the nodes that its cells,
slots and callees stand for. In a function that passes the type check, values are used after they
have been defined and calls pass what the callee takes.
-/

namespace Dataflow

open Ir

/-! ## Values that are used -/

namespace Ir

/-- The value is defined by one of the instructions. -/
def Defines (body : List Instr) (v : Var) : Prop := ∃ op, Instr.define v op ∈ body

variable {f : Function} {types : TypeEnv} {body before : List Instr} {v x y : Var}

theorem lookup_isSome_of_hasClass {int : Bool} (h : Operation.hasClass types int x = true) :
    (types.lookup x).isSome := by
  unfold Operation.hasClass at h
  split at h
  · contradiction
  · rename_i hx
    rw [hx]
    rfl

theorem lookup_isSome_of_sameType (h : Operation.sameType types x y = true) :
    (types.lookup x).isSome ∧ (types.lookup y).isSome := by
  unfold Operation.sameType at h
  split at h
  · rename_i hx hy
    rw [hx, hy]
    exact ⟨rfl, rfl⟩
  · contradiction

theorem Operation.lookup_isSome {op : Operation} (h : op.wellTyped f types = true) :
    ∀ v ∈ op.operands, (types.lookup v).isSome := by
  cases op <;> simp only [operands, List.forall_mem_cons, List.not_mem_nil, false_implies,
    implies_true, and_true]
  case int op x y =>
    exact lookup_isSome_of_sameType (Bool.and_eq_true_iff.1 h).2
  case float op x y =>
    exact lookup_isSome_of_sameType (Bool.and_eq_true_iff.1 h).2
  case compareInt cond x y =>
    exact lookup_isSome_of_sameType (Bool.and_eq_true_iff.1 h).2
  case compareFloat cond x y =>
    exact lookup_isSome_of_sameType (Bool.and_eq_true_iff.1 h).2
  case negate x => exact lookup_isSome_of_hasClass h
  case equalsImm x imm => exact lookup_isSome_of_hasClass h
  case select c x y =>
    obtain ⟨hc, hxy⟩ := Bool.and_eq_true_iff.1 h
    exact ⟨lookup_isSome_of_hasClass hc, lookup_isSome_of_sameType hxy⟩
  case load ty base offset => 
    rw [beq_iff_eq.1 h]
    rfl

/-- A call that passes the check passes what the callee takes. -/
theorem Instr.args_of_wellTyped {callee : Nat} {args : List Var}
    (h : (call callee args).wellTyped f types = true) :
    ∃ known, f.callees[callee]? = some known ∧
      (args.map fun v => types.lookup v) = known.params.map some := by
  simp only [wellTyped] at h
  split at h
  · contradiction
  · rename_i known hknown
    exact ⟨known, hknown, beq_iff_eq.1 h⟩

/-- What passes the check uses values that have a type. -/
theorem Instr.lookup_isSome {i : Instr} (h : i.wellTyped f types = true) :
    ∀ v ∈ i.operands, (types.lookup v).isSome := by
  cases i with
  | define var op => exact Operation.lookup_isSome h
  | store value base offset =>
      obtain ⟨hvalue, hbase⟩ := Bool.and_eq_true_iff.1 h
      refine List.forall_mem_cons.2 ⟨hvalue, List.forall_mem_singleton.2 ?_⟩
      rw [beq_iff_eq.1 hbase]
      rfl
  | call callee args =>
      obtain ⟨known, -, hargs⟩ := args_of_wellTyped h
      intro v hv
      have hmem : types.lookup v ∈ args.map fun v => types.lookup v := List.mem_map_of_mem hv
      rw [hargs] at hmem
      obtain ⟨ty, -, hty⟩ := List.mem_map.1 hmem
      rw [← hty]
      rfl

/-- A value has a type from the start or because it has been defined. -/
theorem defines_of_lookup_isSome (h : ((typesAfter types body).lookup v).isSome) :
    (types.lookup v).isSome ∨ Defines body v := by
  induction body generalizing types with
  | nil => exact .inl h
  | cons i body ih =>
      rcases ih h with hfirst | ⟨op, hop⟩
      · cases i with
        | define var op =>
            simp only [Instr.extend] at hfirst
            split at hfirst
            · exact .inl hfirst
            · rw [List.lookup_cons] at hfirst
              split at hfirst
              · rename_i hvar
                rw [beq_iff_eq.1 hvar]
                exact .inr ⟨op, List.mem_cons_self⟩
              · exact .inl hfirst
        | store value base offset => exact .inl hfirst
        | call callee args => exact .inl hfirst
      · exact .inr ⟨op, List.mem_cons_of_mem _ hop⟩

theorem bodyWellTyped_iff_inTurn : (bodyWellTyped f (typesAfter types before) body).1 = true ↔
    InTurn (fun earlier i => i.wellTyped f (typesAfter types earlier) = true) before body := by
  induction body generalizing before with
  | nil => exact iff_of_true rfl trivial
  | cons i body ih =>
      have hafter : i.extend (typesAfter types before) = typesAfter types (before ++ [i]) := by
        simp [typesAfter]
      rw [bodyWellTyped_cons, Bool.and_eq_true, hafter, ih]
      exact Iff.rfl

end Ir

/-! ## Forms of instructions -/

def Node.typedPort (n : Node) (p : Port) : TypedPort := (n.portRef p, p.dataType)

namespace UnitPlan

variable (plan : UnitPlan)

/-- The inputs that the calls of the plan load from cells, in their order. -/
def freeInputs (ix : Index) : List TypedPort :=
  plan.called.flatMap fun n => (ix.unlinkedInputs n).map n.typedPort

/-- The outputs that the calls of the plan give values to, in their order. -/
def results : List TypedPort := plan.called.flatMap fun n => n.outputs.map n.typedPort

end UnitPlan

namespace EntryContext

/-- The instruction has one of the forms that an entry function is made of, where these inputs are
loaded from cells, these results have slots and these nodes are called. Loads have the native type
of their port. -/
inductive Moves (c : EntryContext) (g : Graph) (inputs results : List TypedPort)
    (called : List Node) (before : List Instr) : Instr → Prop
  | supplied {v slot offset : Nat} {port : PortRef} {ty : DataType} {native : Ty}
      (hport : g.HasOutput port ty) (hnative : ty.native = some native)
      (hslot : c.plan.bindings.slot? port = some slot)
      (hoffset : c.plan.inputLayout.offset? slot = some offset) :
      Moves c g inputs results called before (.define v (.load native 0 offset))
  | cellAddress {v k : Nat} (hk : k < inputs.length) :
      Moves c g inputs results called before (.define v (.globalAddress k))
  | cell {v a k : Nat} {typed : TypedPort} {native : Ty}
      (haddress : .define a (.globalAddress k) ∈ before) (hk : inputs[k]? = some typed)
      (hnative : typed.2.native = some native) :
      Moves c g inputs results called before (.define v (.load native a 0))
  | slotAddress {v k : Nat} (hk : k < results.length) :
      Moves c g inputs results called before (.define v (.slotAddress k))
  | call {k : Nat} {args : List Var} (hk : k < called.length) :
      Moves c g inputs results called before (.call k args)
  | result {v k : Nat} {typed : TypedPort} {native : Ty} (hk : results[k]? = some typed)
      (hnative : typed.2.native = some native) :
      Moves c g inputs results called before (.define v (.slotLoad native k))
  | store {v field offset : Nat} (hfield : field < c.plan.outputs.length)
      (hoffset : c.plan.outputLayout.offset? field = some offset) :
      Moves c g inputs results called before (.store v 1 offset)

/-- The reference is to the cell of the input. -/
def IsCell (c : EntryContext) (typed : TypedPort) (global : Global) : Prop :=
  ∃ cell, c.storage.cell? typed.1 = some cell ∧ global.symbol = cell.symbol

/-- The reference is to the function of the node. -/
def IsCallee (c : EntryContext) (n : Node) (callee : Callee) : Prop :=
  ∃ f, c.functions.lookup n.name = some f ∧ callee = ⟨f.id, f.params⟩

end EntryContext

/-- A slot of this size holds values of the native type of the port. -/
def TypedPort.Sizes (typed : TypedPort) (size : Nat) : Prop :=
  ∃ native, typed.2.native = some native ∧ size = native.size

/-- If the instruction defines a value, it is neither a parameter nor defined before. -/
def Ir.DefinesNew (before : List Instr) (i : Instr) : Prop :=
  ∀ v op, i = .define v op → 2 ≤ v ∧ ¬ Defines before v

/-- What the code of a draft is for: these inputs are loaded from cells, these results have slots
and these nodes are called. -/
structure EntryDraft.Accounts (d : EntryDraft) (c : EntryContext) (g : Graph)
    (inputs results : List TypedPort) (called : List Node) : Prop where
  cells : List.Forall₂ c.IsCell inputs d.globals
  slots : List.Forall₂ TypedPort.Sizes results d.slots
  callees : List.Forall₂ c.IsCallee called d.callees
  code : InTurn (c.Moves g inputs results called) [] d.body
  single : InTurn DefinesNew [] d.body
  defined : ∀ v, Defines d.body v → v < d.next
  two_le_next : 2 ≤ d.next

namespace EntryContext

open EntryDraft

variable {c : EntryContext} {g : Graph} {d d' : EntryDraft} {n : Node} {t t' : SymbolTable}
  {inputs results inputs' results' : List TypedPort} {called called' : List Node}
  {ports : List Port} {before : List Instr} {i : Instr}

theorem getElem?_mono {α : Type} {xs ys : List α} (h : xs <+: ys) {k : Nat} {a : α}
    (hk : xs[k]? = some a) : ys[k]? = some a := by
  obtain ⟨rest, rfl⟩ := h
  rw [List.getElem?_append_left (List.getElem?_eq_some_iff.1 hk).1]
  exact hk

theorem Moves.mono (h : c.Moves g inputs results called before i) (hinputs : inputs <+: inputs')
    (hresults : results <+: results') (hcalled : called <+: called') :
    c.Moves g inputs' results' called' before i := by
  cases h with
  | supplied hport hnative hslot hoffset => exact .supplied hport hnative hslot hoffset
  | cellAddress hk => exact .cellAddress (Nat.lt_of_lt_of_le hk hinputs.length_le)
  | cell haddress hk hnative =>
      exact .cell haddress (getElem?_mono hinputs hk) hnative
  | slotAddress hk => exact .slotAddress (Nat.lt_of_lt_of_le hk hresults.length_le)
  | call hk => exact .call (Nat.lt_of_lt_of_le hk hcalled.length_le)
  | result hk hnative => exact .result (getElem?_mono hresults hk) hnative
  | store hfield hoffset => exact .store hfield hoffset

end EntryContext

/-! ## Drafts -/

namespace EntryDraft

open EntryContext

variable {c : EntryContext} {g : Graph} {d : EntryDraft} {n : Node}
  {inputs results : List TypedPort} {called : List Node}

theorem accounts_start (c : EntryContext) (g : Graph) : start.Accounts c g [] [] [] where
  cells := .nil
  slots := .nil
  callees := .nil
  code := trivial
  single := trivial
  defined := by
    rintro v ⟨op, hop⟩
    contradiction
  two_le_next := Nat.le_refl 2

namespace Accounts

theorem push (h : d.Accounts c g inputs results called) {i : Instr}
    (hmoves : c.Moves g inputs results called d.body i) (hdefines : ∀ v op, i ≠ .define v op) :
    (d.push i).Accounts c g inputs results called := by
  refine { h with code := ?_, single := ?_, defined := ?_ }
  · exact InTurn.append_iff.2 ⟨h.code, hmoves, trivial⟩
  · exact InTurn.append_iff.2 ⟨h.single, fun v op hi => absurd hi (hdefines v op), trivial⟩
  · rintro v ⟨op, hop⟩
    rcases List.mem_append.1 hop with hop | hop
    · exact h.defined v ⟨op, hop⟩
    · exact absurd (List.mem_singleton.1 hop).symm (hdefines v op)

theorem define (h : d.Accounts c g inputs results called) (op : Operation)
    (hmoves : c.Moves g inputs results called d.body (.define d.next op)) :
    (d.define op).Accounts c g inputs results called := by
  refine { h with
    code := InTurn.append_iff.2 ⟨h.code, hmoves, trivial⟩
    single := InTurn.append_iff.2 ⟨h.single, ?_, trivial⟩
    defined := ?_
    two_le_next := Nat.le_succ_of_le h.two_le_next }
  · intro v op' hsame
    cases hsame
    exact ⟨h.two_le_next, fun hdefined => Nat.lt_irrefl _ (h.defined _ hdefined)⟩
  · rintro v ⟨op', hop⟩
    rcases List.mem_append.1 hop with hop | hop
    · exact Nat.lt_succ_of_lt (h.defined v ⟨op', hop⟩)
    · cases List.mem_singleton.1 hop
      exact Nat.lt_succ_self _

theorem defineOutput (h : d.Accounts c g inputs results called) (port : PortRef) {op : Operation}
    (hmoves : c.Moves g inputs results called d.body (.define d.next op)) :
    (d.defineOutput port op).Accounts c g inputs results called :=
  { h.define op hmoves with }

theorem addGlobal (h : d.Accounts c g inputs results called) {typed : TypedPort} {symbol : String}
    {colocated : Bool} (hcell : ∀ number, c.IsCell typed ⟨symbol, colocated, number⟩) :
    (d.addGlobal symbol colocated).Accounts c g (inputs ++ [typed]) results called :=
  { h with
    cells := List.rel_append h.cells (.cons (hcell _) .nil)
    code := h.code.mono fun _ _ _ hmoves =>
      hmoves.mono (List.prefix_append _ _) List.prefix_rfl List.prefix_rfl }

theorem addSlot (h : d.Accounts c g inputs results called) {typed : TypedPort} {size : Nat}
    (hsize : typed.Sizes size) :
    (d.addSlot size).Accounts c g inputs (results ++ [typed]) called :=
  { h with
    slots := List.rel_append h.slots (.cons hsize .nil)
    code := h.code.mono fun _ _ _ hmoves =>
      hmoves.mono List.prefix_rfl (List.prefix_append _ _) List.prefix_rfl }

theorem addCallee (h : d.Accounts c g inputs results called) {callee : Callee}
    (hcallee : c.IsCallee n callee) :
    (d.addCallee callee).Accounts c g inputs results (called ++ [n]) :=
  { h with
    callees := List.rel_append h.callees (.cons hcallee .nil)
    code := h.code.mono fun _ _ _ hmoves =>
      hmoves.mono List.prefix_rfl List.prefix_rfl (List.prefix_append _ _) }

end Accounts

end EntryDraft

namespace EntryContext

open EntryDraft

variable {c : EntryContext} {g : Graph} {d d' : EntryDraft} {n : Node} {t t' : SymbolTable}
  {inputs results : List TypedPort} {called : List Node} {ports : List Port}

theorem accounts_loadBound (hg : g.WellFormed) (hn : n ∈ g.nodes)
    (hports : ∀ p ∈ ports, p ∈ n.outputs) (hd : d.Accounts c g inputs results called)
    (h : c.loadBound n d ports = .ok d') : d'.Accounts c g inputs results called := by
  induction ports generalizing d with
  | nil =>
      cases h
      exact hd
  | cons p ports ih =>
      obtain ⟨slot, ty, offset, hslot, hty, hoffset, h₁⟩ := loadBound_cons_eq_ok h
      have houtput := hasOutput_of_mem hg hn (hports p List.mem_cons_self)
      exact ih (fun q hq => hports q (List.mem_cons_of_mem _ hq))
        (hd.defineOutput _ (.supplied houtput (nativeType_eq_ok hty) hslot hoffset)) h₁

/-- The ports that are loaded from cells when they are passed. -/
def freePorts (c : EntryContext) (n : Node) (ports : List Port) : List TypedPort :=
  (ports.filter fun p => (c.index.dataOrigin? (n.portRef p)).isNone).map n.typedPort

theorem accounts_argument (hd : d.Accounts c g inputs results called) {p : Port} {v : Var}
    (h : (c.argument n d p).run t = (.ok (v, d'), t')) :
    d'.Accounts c g (inputs ++ c.freePorts n [p]) results called := by
  obtain ⟨ty, hty, ⟨origin, horigin, -, rfl, -⟩ | ⟨horigin, cell, linkage, hcell, -, -, rfl⟩⟩ :=
    argument_eq_ok h
  · simpa [freePorts, horigin] using hd
  · have hfree : c.freePorts n [p] = [n.typedPort p] := by simp [freePorts, horigin]
    rw [hfree]
    have hadded : (d.addGlobal cell.symbol linkage.isFinal).Accounts c g
        (inputs ++ [n.typedPort p]) results called :=
      hd.addGlobal fun _ => ⟨cell, hcell, rfl⟩
    have hlength := hd.cells.length_eq
    have hplace : d.globals.length < (inputs ++ [n.typedPort p]).length := by
      rw [List.length_append, hlength]
      exact Nat.lt_succ_self _
    have haddress := hadded.define (.globalAddress d.globals.length) (.cellAddress hplace)
    have hnative : (n.typedPort p).2.native = some ty := nativeType_eq_ok hty
    refine haddress.define _ (.cell (k := d.globals.length) ?_ ?_ hnative)
    · exact List.mem_append_right _ (List.mem_singleton.2 rfl)
    · rw [← hlength, List.getElem?_concat_length]

theorem accounts_arguments (hd : d.Accounts c g inputs results called) {vs : List Var}
    (h : (c.arguments n d ports).run t = (.ok (vs, d'), t')) :
    d'.Accounts c g (inputs ++ c.freePorts n ports) results called := by
  induction ports generalizing d t vs inputs with
  | nil =>
      cases h
      simpa [freePorts] using hd
  | cons p ports ih =>
      obtain ⟨v, rest, d₁, t₁, hfirst, hrest, rfl⟩ := arguments_cons_eq_ok h
      have hrest := ih (accounts_argument hd hfirst) hrest
      rw [List.append_assoc] at hrest
      have hsplit : c.freePorts n (p :: ports) = c.freePorts n [p] ++ c.freePorts n ports := by
        rw [freePorts, ← List.singleton_append, List.filter_append, List.map_append]
        rfl
      rw [hsplit]
      exact hrest

theorem accounts_outputSlots (hd : d.Accounts c g inputs results called) {types : List Ty}
    (htypes : List.Forall₂ (fun p ty => nativeType (n.portRef p) p.dataType = .ok ty)
      ports types) :
    (outputSlots d types).2.Accounts c g inputs (results ++ ports.map n.typedPort) called := by
  induction htypes generalizing d results with
  | nil => simpa [outputSlots] using hd
  | @cons p ty ports types hty _ ih =>
      have hsize : (n.typedPort p).Sizes ty.size := ⟨ty, nativeType_eq_ok hty, rfl⟩
      have hadded := hd.addSlot hsize
      have hlength : d.slots.length < (results ++ [n.typedPort p]).length := by
        rw [List.length_append, hd.slots.length_eq]
        exact Nat.lt_succ_self _
      have hrest := ih (hadded.define (.slotAddress d.slots.length) (.slotAddress hlength))
      rw [List.append_assoc] at hrest
      exact hrest

theorem accounts_loadResults (hd : d.Accounts c g inputs results called) {slot : Nat}
    {types : List Ty} (hresults : results.drop slot = ports.map n.typedPort)
    (htypes : List.Forall₂ (fun p ty => nativeType (n.portRef p) p.dataType = .ok ty)
      ports types) :
    (loadResults n d slot ports types).Accounts c g inputs results called := by
  induction htypes generalizing d slot with
  | nil =>
      unfold loadResults
      exact hd
  | @cons p ty ports types hty _ ih =>
      rw [List.map_cons] at hresults
      have hslot : results[slot]? = some (n.typedPort p) := by
        rw [← List.head?_drop, hresults]
        rfl
      refine ih (hd.defineOutput _ (.result hslot (nativeType_eq_ok hty))) ?_
      rw [← List.tail_drop, hresults]
      rfl

theorem accounts_call (hd : d.Accounts c g inputs results called)
    (h : (c.call n d).run t = (.ok d', t')) :
    d'.Accounts c g (inputs ++ c.freePorts n n.inputs) (results ++ n.outputs.map n.typedPort)
      (called ++ [n]) := by
  obtain ⟨args, d₁, types, f, hargs, htypes, hlookup, rfl⟩ := call_eq_ok h
  have htypes' := forall₂_of_mapM_eq_ok htypes
  have hd₁ := accounts_arguments hd hargs
  have hd₂ := accounts_outputSlots hd₁ htypes'
  have hcallee : c.IsCallee n ⟨f.id, f.params⟩ := ⟨f, hlookup, rfl⟩
  have hadded := hd₂.addCallee hcallee
  have hplace : (outputSlots d₁ types).2.callees.length < (called ++ [n]).length := by
    rw [List.length_append, hd₂.callees.length_eq]
    exact Nat.lt_succ_self _
  have hcall := hadded.push (i := .call (outputSlots d₁ types).2.callees.length
    (args ++ (outputSlots d₁ types).1)) (.call hplace) (by simp)
  refine accounts_loadResults hcall ?_ htypes'
  rw [← hd₁.slots.length_eq, List.drop_left]
  rfl

theorem accounts_evaluate (hg : g.WellFormed) {nodes : List Node}
    (hnodes : ∀ n ∈ nodes, n ∈ g.nodes) (hd : d.Accounts c g inputs results called)
    (h : (c.evaluate d nodes).run t = (.ok d', t')) :
    d'.Accounts c g
      (inputs ++ (nodes.filter fun n => !c.plan.bindings.binds n.name).flatMap fun n =>
        c.freePorts n n.inputs)
      (results ++ (nodes.filter fun n => !c.plan.bindings.binds n.name).flatMap fun n =>
        n.outputs.map n.typedPort)
      (called ++ nodes.filter fun n => !c.plan.bindings.binds n.name) := by
  induction nodes generalizing d t inputs results called with
  | nil =>
      cases h
      simpa using hd
  | cons n nodes ih =>
      have hn := hnodes n List.mem_cons_self
      have hrest := fun m hm => hnodes m (List.mem_cons_of_mem _ hm)
      obtain ⟨d₁, t₁, ⟨hbinds, hload, rfl⟩ | ⟨hbinds, hcall⟩, h₁⟩ := evaluate_cons_eq_ok h
      · rw [List.filter_cons_of_neg (by simp [hbinds])]
        exact ih hrest (accounts_loadBound hg hn (fun _ hp => hp) hd hload) h₁
      · have hd₁ := ih hrest (accounts_call hd hcall) h₁
        rw [List.filter_cons_of_pos (by simp [hbinds]), List.flatMap_cons, List.flatMap_cons,
          ← List.append_assoc, ← List.append_assoc, List.append_cons]
        exact hd₁

theorem accounts_storeOutputs {field : Nat} {outputs : List TypedPort}
    (hfield : field + outputs.length = c.plan.outputs.length)
    (hd : d.Accounts c g inputs results called) (h : c.storeOutputs d field outputs = .ok d') :
    d'.Accounts c g inputs results called := by
  induction outputs generalizing d field with
  | nil =>
      cases h
      exact hd
  | cons typed outputs ih =>
      rw [List.length_cons] at hfield
      obtain ⟨v, offset, -, hoffset, h₁⟩ := storeOutputs_cons_eq_ok h
      exact ih (by omega) (hd.push (.store (by omega) hoffset) (by simp)) h₁

end EntryContext

/-! ## Whole entry functions -/

/-- The reference is to a function of the node, which takes the inputs of the node in their native
types and then one address for each of its outputs. -/
def Node.IsCalledAs (n : Node) (functions : List Function) (callee : Callee) : Prop :=
  ∃ f ∈ functions, n.IsFunction f ∧ callee = ⟨f.id, f.params⟩ ∧
    ∃ natives, (n.inputs.map fun p => p.dataType.native) = natives.map some ∧
      callee.params = natives ++ n.outputs.map fun _ => Ty.address

/-- What the entry function with this body does: it takes two addresses, has cells, slots and
callees for the inputs, the results and the calls of the plan, and consists of the forms that go
with them. Each value is defined once and before it is used, and calls pass values of the types
that the callee takes. -/
structure EntryContext.Enters (c : EntryContext) (g : Graph) (entry : Function)
    (body : List Instr) : Prop where
  params : entry.params = [.address, .address]
  blocks : entry.blocks = [⟨[(0, .address), (1, .address)], body, .leave⟩]
  cells : List.Forall₂ c.IsCell (c.plan.freeInputs c.index) entry.globals
  slots : List.Forall₂ TypedPort.Sizes c.plan.results entry.slots
  callees : List.Forall₂ (fun n callee => n.IsCalledAs (c.functions.map Prod.snd) callee)
    c.plan.called entry.callees
  code : InTurn (c.Moves g (c.plan.freeInputs c.index) c.plan.results c.plan.called) [] body
  single : InTurn DefinesNew [] body
  operands : InTurn (fun before i => ∀ v ∈ i.operands, v < 2 ∨ Defines before v) [] body
  calls : InTurn (fun before i => ∀ k args, i = .call k args → ∃ callee,
    entry.callees[k]? = some callee ∧
      (args.map fun v => (typesAfter EntryDraft.entryTypes before).lookup v) =
        callee.params.map some) [] body

theorem Node.natives_of_portTypes {n : Node} {role : PortRole} {natives : List Ty}
    (h : n.portTypes role = .ok natives) :
    ((n.ports role).map fun p => p.dataType.native) = natives.map some := by
  have hports := forall₂_of_mapM_eq_ok h
  generalize n.ports role = ports at hports
  clear h
  induction hports with
  | nil => rfl
  | cons hport _ ih => rw [List.map_cons, List.map_cons, ih, nativeType_eq_ok hport]

namespace EntryContext

open EntryDraft

variable {c : EntryContext} {g : Graph} {n : Node} {f : Function} {callee : Callee}

theorem IsCallee.isCalledAs (h : c.IsCallee n callee)
    (hfunctions : ∀ f, c.functions.lookup n.name = some f → n.IsFunction f) :
    n.IsCalledAs (c.functions.map Prod.snd) callee := by
  obtain ⟨f, hlookup, rfl⟩ := h
  obtain ⟨before, after, hsplit, -⟩ := List.lookup_eq_some_iff.1 hlookup
  have hfunction := hfunctions f hlookup
  refine ⟨f, ?_, hfunction, rfl, ?_⟩
  · rw [hsplit]
    simp
  · obtain ⟨id, name, inputs, outputs, hinputs, houtputs, hmade⟩ := hfunction
    refine ⟨inputs, Node.natives_of_portTypes hinputs, ?_⟩
    change f.params = _
    have hlength := congrArg List.length (Node.natives_of_portTypes houtputs)
    rw [List.length_map, List.length_map] at hlength
    rw [(Node.function_eq_ok hmade).2.2.1, List.map_const', List.map_const', ← hlength]
    rfl

/-- Code that passes the check uses values that are at hand, each call in the right types. -/
theorem inTurn_of_checks {d : EntryDraft} (h : d.Checks f) :
    InTurn (fun before i => ∀ v ∈ i.operands, v < 2 ∨ Defines before v) [] d.body ∧
      InTurn (fun before i => ∀ k args, i = .call k args → ∃ callee,
        f.callees[k]? = some callee ∧
          (args.map fun v => (typesAfter entryTypes before).lookup v) =
            callee.params.map some) [] d.body := by
  have hbody : (bodyWellTyped f (typesAfter entryTypes []) d.body).1 = true := h
  have hturns := bodyWellTyped_iff_inTurn.1 hbody
  refine ⟨hturns.mono ?_, hturns.mono ?_⟩
  · intro before i _ hi v hv
    refine (defines_of_lookup_isSome (Instr.lookup_isSome hi v hv)).imp_left ?_
    intro hparam
    obtain ⟨ty, hty⟩ := Option.isSome_iff_exists.1 hparam
    simp only [entryTypes, List.lookup_cons, List.lookup_nil] at hty
    split at hty
    · rename_i hone
      rw [beq_iff_eq.1 hone]
      exact Nat.one_lt_two
    · split at hty
      · rename_i hzero
        rw [beq_iff_eq.1 hzero]
        exact Nat.zero_lt_two
      · contradiction
  · rintro before _ - hi k args rfl
    exact Instr.args_of_wellTyped hi

theorem enters_generate (hc : c.Suits g) (hplan : ∀ n ∈ c.plan.called, n ∈ g.nodes)
    (hfed : ∀ n ∈ c.plan.called, g.Fed n)
    (hfunctions : ∀ n ∈ g.nodes, ∀ f, c.functions.lookup n.name = some f → n.IsFunction f)
    {name : String} {t t' : SymbolTable} (h : (c.generate name).run t = (.ok f, t')) :
    ∃ body, c.Enters g f body := by
  have htyped := (wellTyped_generate_iff hc h).2 hfed
  obtain ⟨id, t₁, d, d', -, hevaluate, hstore, rfl⟩ := generate_eq_ok h
  have hd := accounts_evaluate hc.wellFormed hc.order (accounts_start c g) hevaluate
  have hd' := accounts_storeOutputs (Nat.zero_add _) hd hstore
  obtain ⟨hoperands, hcalls⟩ := inTurn_of_checks (wellTyped_entryOf.1 htyped)
  have hcallees : List.Forall₂ c.IsCallee c.plan.called d'.callees := hd'.callees
  have hreferred := (List.forall₂_and_left _ _).2 ⟨hplan, hcallees⟩
  exact ⟨d'.body, rfl, rfl, hd'.cells, hd'.slots,
    hreferred.imp fun n callee hn => hn.2.isCalledAs (hfunctions n hn.1), hd'.code, hd'.single,
    hoperands, hcalls⟩

end EntryContext

end Dataflow
