import Dataflow.Proofs.Symbol.Freshness
import Dataflow.Proofs.SymbolTable.Declarations
import Dataflow.Proofs.Unit.Invocation

/-!
# What generating a unit declares

Generation declares the functions of the unit under the unit's label and the cells that its
entry function loads, whether it succeeds or not. When it succeeds, every function of the unit
is known under its id, its name and its parameters.
-/

namespace Dataflow

open Ir

namespace Generation

variable {α β : Type} {function function' : String → List Ty → Prop}
  {cell cell' : String → Prop} {x : Generation α}

/-- Whatever comes of it, the computation only declares functions and cells of some kind. -/
def Declares (function : String → List Ty → Prop) (cell : String → Prop) (x : Generation α) :
    Prop :=
  ∀ t : SymbolTable, t.Declares function cell (x.run t).2

theorem Declares.mono (h : x.Declares function cell)
    (hfunction : ∀ name params, function name params → function' name params)
    (hcell : ∀ name, cell name → cell' name) : x.Declares function' cell' :=
  fun t => (h t).mono hfunction hcell

theorem declares_pure (a : α) : (pure a : Generation α).Declares function cell :=
  fun t => .refl t

theorem declares_throw (e : UnitError) : (throw e : Generation α).Declares function cell :=
  fun t => .refl t

theorem declares_ofExcept (e : Except UnitError α) : (ofExcept e).Declares function cell :=
  fun t => .refl t

theorem Declares.bind (hx : x.Declares function cell) {k : α → Generation β}
    (hk : ∀ a, (k a).Declares function cell) : (x >>= k).Declares function cell := by
  intro t
  have hfirst := hx t
  cases hrun : x.run t with
  | mk result t₁ =>
      rw [hrun] at hfirst
      cases result with
      | error e =>
          rw [run_bind_of_error hrun]
          exact hfirst
      | ok a =>
          rw [run_bind_of_ok hrun]
          exact hfirst.trans (hk a t₁)

theorem Declares.bind_ofExcept {e : Except UnitError α} {k : α → Generation β}
    (hk : ∀ a, e = .ok a → (k a).Declares function cell) :
    (ofExcept e >>= k).Declares function cell := by
  intro t
  cases e with
  | error err => exact .refl t
  | ok a => exact hk a rfl t

theorem declares_declareFunction {name : String} {params : List Ty} (linkage : Linkage)
    (h : function name params) : (declareFunction name linkage params).Declares function cell := by
  intro t
  refine (t.declares_declareFunction name linkage params).mono ?_ (fun _ => False.elim)
  rintro _ _ ⟨rfl, rfl⟩
  exact h

theorem declares_declareCell {name : String} (linkage : Linkage) (h : cell name) :
    (declareCell name linkage).Declares function cell := by
  intro t
  refine (t.declares_declareCell name linkage).mono (fun _ _ => False.elim) ?_
  rintro _ rfl
  exact h

end Generation

/-! ## Functions of nodes -/

open Generation

/-- The parameters of a node's function. -/
def Node.params (n : Node) : Except UnitError (List Ty) := do
  let inputs ← n.portTypes .input
  let outputs ← n.portTypes .output
  return inputs ++ outputs.map fun _ => Ty.address

theorem Node.params_of_portTypes {n : Node} {inputs outputs : List Ty}
    (hinputs : n.portTypes .input = .ok inputs) (houtputs : n.portTypes .output = .ok outputs) :
    n.params = .ok (inputs ++ outputs.map fun _ => Ty.address) := by
  unfold params
  rw [hinputs, houtputs]
  rfl

theorem Node.declares_generate (n : Node) (name : String) :
    (n.generate name).Declares (fun s params => s = name ∧ n.params = .ok params)
      (fun _ => False) := by
  unfold Node.generate
  refine Declares.bind_ofExcept ?_
  intro inputs hinputs
  refine Declares.bind_ofExcept ?_
  intro outputs houtputs
  refine (declares_declareFunction _ ⟨rfl, params_of_portTypes hinputs houtputs⟩).bind ?_
  intro id
  exact declares_ofExcept _

/-- The table is asked for the functions of the nodes and for nothing else. -/
theorem declares_generateNodes (symbols : List (Node × String)) :
    (generateNodes symbols).Declares
      (fun s params => ∃ n, (n, s) ∈ symbols ∧ n.params = .ok params) (fun _ => False) := by
  induction symbols with
  | nil => exact declares_pure _
  | cons entry symbols ih =>
      obtain ⟨n, name⟩ := entry
      refine Declares.bind ((n.declares_generate name).mono ?_ (fun _ => id)) ?_
      · rintro _ _ ⟨rfl, hparams⟩
        exact ⟨n, List.mem_cons_self, hparams⟩
      · intro f
        refine Declares.bind (ih.mono ?_ (fun _ => id)) fun _ => declares_pure _
        rintro s _ ⟨m, hm, hparams⟩
        exact ⟨m, List.mem_cons_of_mem _ hm, hparams⟩

/-- A function is known under its id, its name and its parameters. -/
def Ir.Function.DeclaredIn (f : Function) (t : SymbolTable) : Prop :=
  t.signatures[f.id]? = some (f.name, f.params)

theorem Ir.Function.DeclaredIn.mono {f : Function} {t t' : SymbolTable} (h : f.DeclaredIn t)
    (hext : t.Extends t') : f.DeclaredIn t' :=
  hext.getElem?_signatures h

theorem Node.globals_of_function {n : Node} {id : Nat} {name : String} {inputs outputs : List Ty}
    {f : Function} (h : n.function id name inputs outputs = .ok f) : f.globals = [] := by
  unfold Node.function at h
  obtain ⟨fragment, -, h₁⟩ := bind_eq_ok h
  split at h₁
  · contradiction
  · obtain ⟨stores, -, h₂⟩ := bind_eq_ok h₁
    cases h₂
    rfl

theorem declaredIn_of_mem_generateNodes {symbols : List (Node × String)}
    {functions : List (String × Function)} {t t' : SymbolTable}
    (h : (generateNodes symbols).run t = (.ok functions, t')) :
    ∀ f ∈ functions.map Prod.snd, f.DeclaredIn t' ∧ f.globals = [] := by
  induction symbols generalizing functions t with
  | nil =>
      obtain ⟨rfl, -⟩ := run_pure_eq_ok h
      intro f hf
      contradiction
  | cons entry symbols ih =>
      obtain ⟨n, name⟩ := entry
      obtain ⟨first, t₁, hfirst, h₁⟩ := run_bind_eq_ok h
      obtain ⟨rest, t₂, hrest, h₂⟩ := run_bind_eq_ok h₁
      obtain ⟨rfl, rfl⟩ := run_pure_eq_ok h₂
      obtain ⟨id, inputs, outputs, -, -, hdeclare, hfunction⟩ := Node.generate_eq_ok hfirst
      have hextends : t₁.Extends t' := by
        have hgrows := declares_generateNodes symbols t₁
        rw [hrest] at hgrows
        exact hgrows.extends
      have hdeclared : first.DeclaredIn t₁ := by
        obtain ⟨hid, hname, hparams, -⟩ := Node.function_eq_ok hfunction
        unfold Function.DeclaredIn
        rw [hid, hname, hparams]
        exact SymbolTable.signature_of_declareFunction hdeclare
      intro f hf
      rcases List.mem_cons.1 hf with rfl | hf
      · exact ⟨hdeclared.mono hextends, Node.globals_of_function hfunction⟩
      · exact ih hrest f hf

/-! ## Entry functions -/

namespace EntryContext

variable {c : EntryContext} {d d' : EntryDraft} {t t' : SymbolTable} {n : Node}

/-- The symbol of the cell of some input. -/
def CellSymbol (c : EntryContext) (symbol : String) : Prop :=
  ∃ port cell, c.storage.cell? port = some cell ∧ symbol = cell.symbol

theorem declares_argument (c : EntryContext) (n : Node) (d : EntryDraft) (p : Port) :
    (c.argument n d p).Declares (fun _ _ => False) c.CellSymbol := by
  unfold argument
  refine (declares_ofExcept _).bind ?_
  intro ty
  split
  · split
    · exact declares_throw _
    · exact declares_pure _
  · split
    · exact declares_throw _
    · rename_i cell hcell
      refine (declares_declareCell _ ⟨_, cell, hcell, rfl⟩).bind ?_
      intro linkage
      exact declares_pure _

theorem declares_arguments (c : EntryContext) (n : Node) (d : EntryDraft) (ports : List Port) :
    (c.arguments n d ports).Declares (fun _ _ => False) c.CellSymbol := by
  induction ports generalizing d with
  | nil => exact declares_pure _
  | cons p ports ih =>
      refine (c.declares_argument n d p).bind ?_
      intro first
      refine (ih _).bind ?_
      intro rest
      exact declares_pure _

theorem declares_call (c : EntryContext) (n : Node) (d : EntryDraft) :
    (c.call n d).Declares (fun _ _ => False) c.CellSymbol := by
  unfold call
  refine (c.declares_arguments n d n.inputs).bind ?_
  intro args
  refine (declares_ofExcept _).bind ?_
  intro types
  dsimp only
  split
  · exact declares_throw _
  · exact declares_pure _

theorem declares_evaluate (c : EntryContext) (d : EntryDraft) (nodes : List Node) :
    (c.evaluate d nodes).Declares (fun _ _ => False) c.CellSymbol := by
  induction nodes generalizing d with
  | nil => exact declares_pure _
  | cons n nodes ih =>
      unfold evaluate
      split
      · exact (declares_ofExcept _).bind fun d => ih d
      · exact (c.declares_call n d).bind fun d => ih d

/-- The parameters of every entry function. -/
abbrev entryParams : List Ty := [.address, .address]

theorem declares_generate (c : EntryContext) (name : String) :
    (c.generate name).Declares (fun s params => s = name ∧ params = entryParams)
      c.CellSymbol := by
  unfold generate
  refine (declares_declareFunction _ ⟨rfl, rfl⟩).bind ?_
  intro number
  refine ((c.declares_evaluate _ _).mono (fun _ _ => False.elim) fun _ => id).bind ?_
  intro d
  refine (declares_ofExcept _).bind ?_
  intro d
  exact declares_pure _

/-- Every cell that the draft refers to is the cell of some input. -/
def LoadsCells (c : EntryContext) (globals : List Global) : Prop :=
  ∀ global ∈ globals, c.CellSymbol global.symbol

theorem loadsCells_argument {p : Port} {v : Var}
    (h : (c.argument n d p).run t = (.ok (v, d'), t')) (hd : c.LoadsCells d.globals) :
    c.LoadsCells d'.globals := by
  obtain ⟨ty, -, ⟨_, -, -, rfl, -⟩ | ⟨-, cell, linkage, hcell, -, -, rfl⟩⟩ := argument_eq_ok h
  · exact hd
  · intro global hglobal
    rcases List.mem_append.1 hglobal with hglobal | hglobal
    · exact hd global hglobal
    · rw [List.mem_singleton.1 hglobal]
      exact ⟨_, cell, hcell, rfl⟩

theorem loadsCells_arguments {ports : List Port} {vs : List Var}
    (h : (c.arguments n d ports).run t = (.ok (vs, d'), t')) (hd : c.LoadsCells d.globals) :
    c.LoadsCells d'.globals := by
  induction ports generalizing d vs t with
  | nil =>
      cases h
      exact hd
  | cons p ports ih =>
      obtain ⟨v, rest, d₁, t₁, hfirst, hrest, rfl⟩ := arguments_cons_eq_ok h
      exact ih hrest (loadsCells_argument hfirst hd)

theorem globals_outputSlots (d : EntryDraft) (types : List Ty) :
    (outputSlots d types).2.globals = d.globals := by
  induction types generalizing d with
  | nil => rfl
  | cons ty types ih => exact ih _

theorem loadsCells_call (h : (c.call n d).run t = (.ok d', t')) (hd : c.LoadsCells d.globals) :
    c.LoadsCells d'.globals := by
  obtain ⟨args, d₁, types, f, hargs, -, -, rfl⟩ := call_eq_ok h
  rw [callWith, (loadResults_fields _ _ _ _ _).2.1]
  change c.LoadsCells (outputSlots d₁ types).2.globals
  rw [globals_outputSlots]
  exact loadsCells_arguments hargs hd

theorem globals_loadBound {ports : List Port} (h : c.loadBound n d ports = .ok d') :
    d'.globals = d.globals := by
  induction ports generalizing d with
  | nil =>
      cases h
      rfl
  | cons p ports ih =>
      obtain ⟨slot, ty, offset, -, -, -, h₁⟩ := loadBound_cons_eq_ok h
      have hrest := ih h₁
      exact hrest

theorem loadsCells_evaluate {nodes : List Node} (h : (c.evaluate d nodes).run t = (.ok d', t'))
    (hd : c.LoadsCells d.globals) : c.LoadsCells d'.globals := by
  induction nodes generalizing d t with
  | nil =>
      obtain ⟨rfl, -⟩ := run_pure_eq_ok h
      exact hd
  | cons n nodes ih =>
      obtain ⟨d₁, t₁, ⟨-, hload, rfl⟩ | ⟨-, hcall⟩, h₁⟩ := evaluate_cons_eq_ok h
      · refine ih h₁ ?_
        rw [globals_loadBound hload]
        exact hd
      · exact ih h₁ (loadsCells_call hcall hd)

theorem declaredIn_of_generate {name : String} {f : Function}
    (h : (c.generate name).run t = (.ok f, t')) : f.DeclaredIn t' ∧ c.LoadsCells f.globals := by
  obtain ⟨id, t₁, d, d', hdeclare, hevaluate, hstore, rfl⟩ := generate_eq_ok h
  have hextends : t₁.Extends t' := by
    have hgrows := c.declares_evaluate .start c.plan.order t₁
    rw [hevaluate] at hgrows
    exact hgrows.extends
  refine ⟨?_, ?_⟩
  · exact hextends.getElem?_signatures
      (SymbolTable.signature_of_declareFunction hdeclare)
  · change c.LoadsCells d'.globals
    rw [(storeOutputs_fields hstore).2.1]
    exact loadsCells_evaluate hevaluate (by intro global hglobal; contradiction)

end EntryContext

/-! ## Units -/

variable {g : Graph} {ix : Index} {storage : StorageLayout} {r : UnitRequest} {sequence : Nat}

/-- The functions of the unit with this number, computed nodes first. -/
def IsUnitFunction (g : Graph) (ix : Index) (storage : StorageLayout) (r : UnitRequest)
    (sequence : Nat) (name : String) (params : List Ty) : Prop :=
  ∃ plan, UnitPlan.make g ix storage r = .ok plan ∧
    ((∃ n, (n, name) ∈ nodeSymbols (unitLabel sequence r) [unitLabel sequence r ++ "::entry"]
        plan.called ∧ n.params = .ok params) ∨
      (name = unitLabel sequence r ++ "::entry" ∧ params = EntryContext.entryParams))

/-- The functions of a unit carry its label. -/
theorem IsUnitFunction.label {name : String} {params : List Ty}
    (h : IsUnitFunction g ix storage r sequence name params) :
    ∃ rest, name = unitLabel sequence r ++ "::" ++ rest := by
  obtain ⟨plan, -, ⟨n, hn, -⟩ | ⟨rfl, -⟩⟩ := h
  · exact exists_of_mem_nodeSymbols hn
  · exact ⟨"entry", by rw [String.append_assoc, show "::" ++ "entry" = "::entry" by decide]⟩

/-- A function of a unit is known by its name. -/
theorem IsUnitFunction.params_eq {name : String} {params params' : List Ty}
    (h : IsUnitFunction g ix storage r sequence name params)
    (h' : IsUnitFunction g ix storage r sequence name params') : params = params' := by
  obtain ⟨plan, hplan, hname⟩ := h
  obtain ⟨plan', hplan', hname'⟩ := h'
  rw [hplan] at hplan'
  cases hplan'
  obtain ⟨hnodup, hfree⟩ := nodeSymbols_apart (unitLabel sequence r)
    [unitLabel sequence r ++ "::entry"] plan.called
  have hentry : ∀ n, (n, unitLabel sequence r ++ "::entry") ∉ nodeSymbols (unitLabel sequence r)
      [unitLabel sequence r ++ "::entry"] plan.called :=
    fun n hn => hfree _ (List.mem_map_of_mem hn) (List.mem_singleton.2 rfl)
  rcases hname with ⟨n, hn, hparams⟩ | ⟨rfl, rfl⟩
  · rcases hname' with ⟨m, hm, hparams'⟩ | ⟨rfl, -⟩
    · cases List.inj_on_of_nodup_map hnodup hn hm rfl
      rw [hparams] at hparams'
      cases hparams'
      rfl
    · exact absurd hn (hentry n)
  · rcases hname' with ⟨m, hm, -⟩ | ⟨-, rfl⟩
    · exact absurd hm (hentry m)
    · rfl

/-- Generating a unit declares functions of the unit and cells of the layout. -/
theorem declares_generateUnit (g : Graph) (ix : Index) (storage : StorageLayout)
    (r : UnitRequest) (sequence : Nat) :
    (generateUnit g ix storage r sequence).Declares (IsUnitFunction g ix storage r sequence)
      (fun s => ∃ port cell, storage.cell? port = some cell ∧ s = cell.symbol) := by
  unfold generateUnit
  refine Declares.bind_ofExcept ?_
  intro plan hplan
  refine ((declares_generateNodes _).mono ?_ (fun _ => False.elim)).bind ?_
  · intro s params hs
    exact ⟨plan, hplan, Or.inl hs⟩
  · intro nodes
    refine ((EntryContext.declares_generate ⟨ix, storage, plan, nodes⟩ _).mono ?_
      (fun _ => id)).bind ?_
    · intro s params hs
      exact ⟨plan, hplan, Or.inr hs⟩
    · intro entry
      exact declares_pure _

theorem declaredIn_of_generateUnit {t t' : SymbolTable} {unit : GeneratedUnit}
    (h : (generateUnit g ix storage r sequence).run t = (.ok unit, t')) :
    ∀ f ∈ unit.functions, f.DeclaredIn t' ∧ ∀ global ∈ f.globals,
      ∃ port cell, storage.cell? port = some cell ∧ global.symbol = cell.symbol := by
  obtain ⟨plan, nodes, entry, t₁, -, hnodes, hentry, rfl⟩ := generateUnit_eq_ok h
  obtain ⟨hdeclared, hglobals⟩ := EntryContext.declaredIn_of_generate hentry
  have hextends : t₁.Extends t' := by
    have hgrows := EntryContext.declares_generate ⟨ix, storage, plan, nodes⟩
      (unitLabel sequence r ++ "::entry") t₁
    rw [hentry] at hgrows
    exact hgrows.extends
  intro f hf
  rcases List.mem_append.1 hf with hf | hf
  · obtain ⟨hnode, hnone⟩ := declaredIn_of_mem_generateNodes hnodes f hf
    refine ⟨hnode.mono hextends, ?_⟩
    intro global hglobal
    rw [hnone] at hglobal
    contradiction
  · rw [List.mem_singleton.1 hf]
    exact ⟨hdeclared, hglobals⟩

end Dataflow
