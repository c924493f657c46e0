import Dataflow.Proofs.Unit.Refusals

/-!
# Functions under the names of cells

Cells and functions share one space of names, but each kind is kept apart from its own kind only.
A node can be called so that its cell has the symbol of a function, and then the function cannot
be declared: `Backend.refuses_iff_meetsCell` says over a backend that has compiled the cells and
nothing else which requests end so, and that the symbol table has no other objection to them.
-/

namespace Dataflow

open Ir Generation

/-! ## Errors of the symbol table -/

/-- The error is none of the symbol table. -/
def UnitError.SparesSymbols : UnitError → Prop
  | .symbol _ => False
  | _ => True

theorem UnitError.IsOfRequest.sparesSymbols {err : UnitError} (h : err.IsOfRequest) :
    err.SparesSymbols := by
  cases err <;> trivial

section Planning

variable {g : Graph} {ix : Index}

theorem sparesSymbols_bindings (g : Graph) (ix : Index) (inputs : List PortRef) :
    FailsOnly UnitError.SparesSymbols (Bindings.make g ix inputs) := by
  refine .bind (.mapM fun port _ => (Bindings.failsOnly_designate g ix port).mono
    fun _ h => h.sparesSymbols) fun ports _ => .bind (.forM fun name _ => ?_) fun _ _ => .ok _
  unfold Bindings.checkComplete
  split
  · exact .error trivial
  · split
    · exact .error trivial
    · exact .ok _

theorem sparesSymbols_scheduleRoots (bound roots : List String) (p : Schedule.Progress) :
    FailsOnly UnitError.SparesSymbols (scheduleRoots g ix bound p roots) := by
  induction roots generalizing p with
  | nil => exact .ok p
  | cons root roots ih =>
      unfold scheduleRoots
      split
      · dsimp only
        split
        · exact .error trivial
        · exact ih _
      · exact .error trivial

/-- Nothing is declared while a request is planned. -/
theorem sparesSymbols_make (g : Graph) (storage : StorageLayout) (r : UnitRequest) :
    FailsOnly UnitError.SparesSymbols (UnitPlan.make g (Index.build g) storage r) := by
  have hspares : ∀ err : UnitError, err.IsOfRequest → err.SparesSymbols :=
    fun _ h => h.sparesSymbols
  unfold UnitPlan.make
  dsimp only
  split
  · exact .error trivial
  · split
    · exact .error trivial
    · refine .bind (.mapM fun port _ => (failsOnly_resolveOutput g port).mono hspares)
        fun outputs _ => ?_
      refine .bind ((failsOnly_forPorts _).mono hspares) fun _ _ => ?_
      refine .bind (sparesSymbols_bindings g _ _) fun bindings _ => ?_
      refine .bind ((failsOnly_forPorts _).mono hspares) fun _ _ => ?_
      refine .bind ?_ fun _ _ => .ok _
      exact .bind (sparesSymbols_scheduleRoots _ _ _) fun _ _ => .ok _

theorem sparesSymbols_nativeType (port : PortRef) (ty : DataType) :
    FailsOnly UnitError.SparesSymbols (nativeType port ty) :=
  (failsOnly_nativeType port ty).mono fun _ h => h.sparesSymbols

theorem sparesSymbols_portTypes (n : Node) (role : PortRole) :
    FailsOnly UnitError.SparesSymbols (n.portTypes role) :=
  .mapM fun _ _ => sparesSymbols_nativeType _ _

end Planning

/-! ## Entry functions -/

namespace Generation

variable {α β : Type} {storage : StorageLayout}

/-- A table that knows the cells refuses nothing that the computation declares, and knows them
still. -/
structure Unrefused (storage : StorageLayout) (x : Generation α) : Prop where
  ready : ∀ t : SymbolTable, t.Ready storage → (x.run t).2.Ready storage
  spares : ∀ t : SymbolTable, t.Ready storage →
    Dataflow.FailsOnly UnitError.SparesSymbols (x.run t).1

theorem unrefused_pure (a : α) : (pure a : Generation α).Unrefused storage :=
  ⟨fun _ h => h, fun _ _ => .ok a⟩

theorem unrefused_throw {err : UnitError} (h : err.SparesSymbols) :
    (throw err : Generation α).Unrefused storage :=
  ⟨fun _ h => h, fun _ _ => .error h⟩

theorem unrefused_ofExcept {y : Except UnitError α}
    (h : Dataflow.FailsOnly UnitError.SparesSymbols y) : (ofExcept y).Unrefused storage :=
  ⟨fun _ h => h, fun _ _ => h⟩

theorem Unrefused.bind {x : Generation α} {k : α → Generation β} (hx : x.Unrefused storage)
    (hk : ∀ a, (k a).Unrefused storage) : (x >>= k).Unrefused storage := by
  have hsteps : ∀ t : SymbolTable, t.Ready storage → ((x >>= k).run t).2.Ready storage ∧
      Dataflow.FailsOnly UnitError.SparesSymbols ((x >>= k).run t).1 := by
    intro t ht
    have hready := hx.ready t ht
    have hspares := hx.spares t ht
    cases hrun : x.run t with
    | mk result t₁ =>
        rw [hrun] at hready hspares
        cases result with
        | error err =>
            rw [run_bind_of_error hrun]
            exact ⟨hready, .error (hspares err rfl)⟩
        | ok a =>
            rw [run_bind_of_ok hrun]
            exact ⟨(hk a).ready t₁ hready, (hk a).spares t₁ hready⟩
  exact ⟨fun t ht => (hsteps t ht).1, fun t ht => (hsteps t ht).2⟩

theorem unrefused_importCell {cell : StorageCell} (hcell : cell ∈ storage.cells) :
    (declareCell cell.symbol .imported).Unrefused storage := by
  refine ⟨fun t ht => ht.declares (t.declares_declareCell cell.symbol .imported), fun t ht => ?_⟩
  obtain ⟨known, cells, hdeclare, -⟩ :=
    t.declareCell_of_unknown .imported (ht.apart _ (ht.cells cell hcell))
  rw [run_declareCell_of_ok hdeclare]
  exact .ok known

/-- What is made of a result in the end has no part in the errors. -/
theorem error_bind_pure_iff {x : Generation α} {f : α → β} {t : SymbolTable} {err : UnitError} :
    ((x >>= fun a => pure (f a)).run t).1 = .error err ↔ (x.run t).1 = .error err := by
  cases hrun : x.run t with
  | mk result t₁ =>
      cases result with
      | error e =>
          rw [run_bind_of_error hrun]
          simp only [Except.error.injEq]
      | ok a =>
          rw [run_bind_of_ok hrun]
          constructor <;> exact fun h => nomatch h

end Generation

namespace EntryContext

variable (c : EntryContext) (n : Node) (d : EntryDraft)

theorem unrefused_argument (p : Port) : (c.argument n d p).Unrefused c.storage := by
  unfold argument
  refine (unrefused_ofExcept (sparesSymbols_nativeType _ _)).bind fun ty => ?_
  split
  · split
    · exact unrefused_throw trivial
    · exact unrefused_pure _
  · split
    · exact unrefused_throw trivial
    · rename_i cell hcell
      exact (unrefused_importCell (StorageLayout.mem_of_cell? hcell).1).bind
        fun linkage => unrefused_pure _

theorem unrefused_arguments (ports : List Port) : (c.arguments n d ports).Unrefused c.storage := by
  induction ports generalizing d with
  | nil => exact unrefused_pure _
  | cons p ports ih =>
      exact (c.unrefused_argument n d p).bind fun first =>
        (ih _).bind fun rest => unrefused_pure _

theorem unrefused_call : (c.call n d).Unrefused c.storage := by
  unfold call
  refine (c.unrefused_arguments n d n.inputs).bind fun args => ?_
  refine (unrefused_ofExcept (sparesSymbols_portTypes n .output)).bind fun types => ?_
  dsimp only
  split
  · exact unrefused_throw trivial
  · exact unrefused_pure _

theorem sparesSymbols_loadBound (ports : List Port) :
    FailsOnly UnitError.SparesSymbols (c.loadBound n d ports) := by
  induction ports generalizing d with
  | nil => exact .ok d
  | cons p ports ih =>
      unfold loadBound
      dsimp only
      split
      · exact .error trivial
      · refine .bind (sparesSymbols_nativeType _ _) fun ty _ => ?_
        split
        · exact .error trivial
        · exact ih _

theorem unrefused_evaluate (nodes : List Node) : (c.evaluate d nodes).Unrefused c.storage := by
  induction nodes generalizing d with
  | nil => exact unrefused_pure _
  | cons n nodes ih =>
      unfold evaluate
      split
      · exact (unrefused_ofExcept (c.sparesSymbols_loadBound n d _)).bind fun d => ih d
      · exact (c.unrefused_call n d).bind fun d => ih d

theorem sparesSymbols_storeOutputs (field : Nat) (outputs : List TypedPort) :
    FailsOnly UnitError.SparesSymbols (c.storeOutputs d field outputs) := by
  induction outputs generalizing d field with
  | nil => exact .ok d
  | cons typed outputs ih =>
      unfold storeOutputs
      split
      · exact ih _ _
      · exact .error trivial

/-- An entry function is refused where its name is that of a cell, and only there. -/
theorem generate_refused_iff {t : SymbolTable} (ht : t.Ready c.storage) {name : String}
    (hunknown : t.signature? name = none) (err : SymbolError) :
    ((c.generate name).run t).1 = .error (.symbol err) ↔
      name ∈ t.cellNames ∧ err = .incompatibleDeclaration name := by
  unfold generate
  by_cases hcell : name ∈ t.cellNames
  · rw [run_bind_of_error
      (run_declareFunction_of_error (SymbolTable.declareFunction_of_cell hcell))]
    simp [hcell, eq_comm]
  · have hdeclare : t.declareFunction name .exported entryParams = _ :=
      SymbolTable.declareFunction_of_unknown hcell hunknown
    have ht₁ := ht.declares (t.declares_declareFunction name .exported entryParams)
    rw [hdeclare] at ht₁
    rw [run_bind_of_ok (run_declareFunction_of_ok hdeclare)]
    simp only [hcell, false_and, iff_false]
    intro h
    exact ((c.unrefused_evaluate _ _).bind fun d =>
      (unrefused_ofExcept (c.sparesSymbols_storeOutputs d _ _)).bind fun d =>
        unrefused_pure _).spares _ ht₁ _ h

end EntryContext

/-! ## Functions of nodes -/

theorem SymbolTable.Declares.signature?_eq_none {t t' : SymbolTable}
    {function : String → List Ty → Prop} {cell : String → Prop} (h : t.Declares function cell t')
    {name : String} (hnone : t.signature? name = none) (hother : ∀ params, ¬ function name params) :
    t'.signature? name = none := by
  obtain ⟨added, hadded, hnew⟩ := h.signatures
  unfold signature? at hnone ⊢
  rw [hadded, List.lookup_append, hnone, Option.none_or, List.lookup_eq_none_iff]
  intro s hs
  simp only [bne_iff_ne, ne_eq]
  rintro rfl
  exact hother s.2 (hnew s hs)

theorem SymbolTable.Declares.cellNames_eq {t t' : SymbolTable}
    {function : String → List Ty → Prop} (h : t.Declares function (fun _ => False) t') :
    t'.cellNames = t.cellNames := by
  obtain ⟨added, hadded, hnew⟩ := h.cellNames
  rw [hadded, List.eq_nil_iff_forall_not_mem.2 hnew, List.append_nil]

/-- The function of a node is refused where its name is that of a cell, before its code is made. -/
theorem Node.generate_refused_iff (n : Node) {t : SymbolTable} {name : String}
    (hunknown : t.signature? name = none) (err : SymbolError) :
    ((n.generate name).run t).1 = .error (.symbol err) ↔
      (∃ params, n.params = .ok params) ∧ name ∈ t.cellNames ∧
        err = .incompatibleDeclaration name := by
  unfold Node.generate
  cases hinputs : n.portTypes .input with
  | error e =>
      have hnone : ¬ ∃ params, n.params = .ok params := by
        simp [Node.params, hinputs, bind, Except.bind]
      simp only [hnone, false_and, iff_false]
      intro h
      cases h
      exact sparesSymbols_portTypes n .input _ hinputs
  | ok inputs =>
      rw [run_bind_of_ok (run_ofExcept_of_ok rfl t)]
      cases houtputs : n.portTypes .output with
      | error e =>
          have hnone : ¬ ∃ params, n.params = .ok params := by
            simp [Node.params, hinputs, houtputs, bind, Except.bind]
          simp only [hnone, false_and, iff_false]
          intro h
          cases h
          exact sparesSymbols_portTypes n .output _ houtputs
      | ok outputs =>
          have hsome : ∃ params, n.params = .ok params :=
            ⟨_, Node.params_of_portTypes hinputs houtputs⟩
          rw [run_bind_of_ok (run_ofExcept_of_ok rfl t)]
          by_cases hcell : name ∈ t.cellNames
          · rw [run_bind_of_error
              (run_declareFunction_of_error (SymbolTable.declareFunction_of_cell hcell))]
            simp only [hsome, hcell, true_and, Except.error.injEq, UnitError.symbol.injEq]
            exact eq_comm
          · rw [run_bind_of_ok (run_declareFunction_of_ok
              (SymbolTable.declareFunction_of_unknown hcell hunknown))]
            simp only [hcell, false_and, and_false, iff_false]
            cases n.function t.functions.length name inputs outputs <;> exact fun h => nomatch h

/-- A function with code is generated under a free name. -/
theorem Node.exists_generate_of_emits {n : Node} {t : SymbolTable} {name : String}
    (hemits : n.Emits) (hfree : name ∉ t.cellNames) (hunknown : t.signature? name = none) :
    ∃ f t', (n.generate name).run t = (.ok f, t') := by
  obtain ⟨_, hfunction⟩ := Node.exists_isFunction_iff.2 hemits
  refine Node.generate_of_admittedBy hfunction fun params _ => ⟨hfree, fun known hknown => ?_⟩
  rw [hunknown] at hknown
  contradiction

theorem Node.emits_of_generate {n : Node} {f : Function} {t t' : SymbolTable} {name : String}
    (h : (n.generate name).run t = (.ok f, t')) : n.Emits ∧ name ∉ t.cellNames := by
  obtain ⟨hfunction, hadmitted⟩ := Node.admittedBy_of_generate h
  refine ⟨Node.exists_isFunction_iff.1 ⟨f, hfunction⟩, ?_⟩
  obtain ⟨_, _, inputs, outputs, hinputs, houtputs, -⟩ := hfunction
  exact (hadmitted _ (Node.params_of_portTypes hinputs houtputs)).1

/-- Going through the nodes and on to the entry function, generation comes to a function under the
name of a cell before it comes to a node without code. -/
inductive MeetsCell (cells : List String) (entry : String) : List (Node × String) → String → Prop
  | node {n : Node} {name : String} {rest : List (Node × String)}
      (hparams : ∃ params, n.params = .ok params) (hcell : name ∈ cells) :
      MeetsCell cells entry ((n, name) :: rest) name
  | next {n : Node} {name other : String} {rest : List (Node × String)} (hemits : n.Emits)
      (hfree : name ∉ cells) (hrest : MeetsCell cells entry rest other) :
      MeetsCell cells entry ((n, name) :: rest) other
  | entry (hcell : entry ∈ cells) : MeetsCell cells entry [] entry

theorem MeetsCell.mem {cells : List String} {entry name : String} {symbols : List (Node × String)}
    (h : MeetsCell cells entry symbols name) : name ∈ cells := by
  induction h with
  | node _ hcell => exact hcell
  | next _ _ _ ih => exact ih
  | entry hcell => exact hcell

theorem MeetsCell.mem_or_eq {cells : List String} {entry name : String}
    {symbols : List (Node × String)} (h : MeetsCell cells entry symbols name) :
    (∃ n params, (n, name) ∈ symbols ∧ n.params = .ok params) ∨ name = entry := by
  induction h with
  | node hparams _ =>
      obtain ⟨params, hparams⟩ := hparams
      exact .inl ⟨_, params, List.mem_cons_self, hparams⟩
  | next _ _ _ ih =>
      refine ih.imp_left ?_
      rintro ⟨n, params, hmem, hparams⟩
      exact ⟨n, params, List.mem_cons_of_mem _ hmem, hparams⟩
  | entry _ => exact .inr rfl

theorem meetsCell_nil_iff {cells : List String} {entry name : String} :
    MeetsCell cells entry [] name ↔ entry ∈ cells ∧ name = entry := by
  constructor
  · intro h
    cases h with
    | entry hcell => exact ⟨hcell, rfl⟩
  · rintro ⟨hcell, rfl⟩
    exact .entry hcell

theorem meetsCell_cons_iff {cells : List String} {entry name other : String} {n : Node}
    {symbols : List (Node × String)} : MeetsCell cells entry ((n, name) :: symbols) other ↔
      ((∃ params, n.params = .ok params) ∧ name ∈ cells ∧ other = name) ∨
      (n.Emits ∧ name ∉ cells ∧ MeetsCell cells entry symbols other) := by
  constructor
  · intro h
    cases h with
    | node hparams hcell => exact .inl ⟨hparams, hcell, rfl⟩
    | next hemits hfree hrest => exact .inr ⟨hemits, hfree, hrest⟩
  · rintro (⟨hparams, hcell, rfl⟩ | ⟨hemits, hfree, hrest⟩)
    · exact .node hparams hcell
    · exact .next hemits hfree hrest

/-- Generation goes through the nodes and on, and is refused at the first name of a cell. -/
theorem refused_iff_meetsCell {β : Type} {storage : StorageLayout} {entry : String}
    {symbols : List (Node × String)} {t : SymbolTable} (ht : t.Ready storage)
    (hnodup : (entry :: symbols.map Prod.snd).Nodup)
    (hunknown : ∀ name ∈ entry :: symbols.map Prod.snd, t.signature? name = none)
    {k : List (String × Function) → Generation β}
    (hk : ∀ nodes s, s.Ready storage → s.signature? entry = none → ∀ err,
      ((k nodes).run s).1 = .error (.symbol err) ↔
        entry ∈ s.cellNames ∧ err = .incompatibleDeclaration entry) (err : SymbolError) :
    ((generateNodes symbols >>= k).run t).1 = .error (.symbol err) ↔
      ∃ name, err = .incompatibleDeclaration name ∧ MeetsCell t.cellNames entry symbols name := by
  induction symbols generalizing t k with
  | nil =>
      have hstep : generateNodes [] >>= k = k [] := pure_bind _ _
      rw [hstep, hk [] t ht (hunknown entry List.mem_cons_self)]
      simp [meetsCell_nil_iff, and_comm]
  | cons first symbols ih =>
      obtain ⟨n, name⟩ := first
      have hstep : generateNodes ((n, name) :: symbols) >>= k = n.generate name >>= fun f =>
          generateNodes symbols >>= fun fs => k ((n.name, f) :: fs) := by
        simp [generateNodes, bind_assoc]
      have hfresh : t.signature? name = none := hunknown name (by simp)
      have hname := n.generate_refused_iff hfresh err
      rw [hstep]
      simp only [meetsCell_cons_iff]
      cases hrun : (n.generate name).run t with
      | mk result t₁ =>
          rw [hrun] at hname
          cases result with
          | error e =>
              have hstuck : ¬ (n.Emits ∧ name ∉ t.cellNames) := by
                rintro ⟨hemits, hfree⟩
                obtain ⟨_, _, hgenerate⟩ := Node.exists_generate_of_emits hemits hfree hfresh
                rw [hgenerate] at hrun
                cases hrun
              rw [run_bind_of_error hrun]
              simp only [Except.error.injEq] at hname ⊢
              rw [hname]
              constructor
              · rintro ⟨hparams, hcell, rfl⟩
                exact ⟨name, rfl, .inl ⟨hparams, hcell, rfl⟩⟩
              · rintro ⟨_, rfl, ⟨hparams, hcell, rfl⟩ | ⟨hemits, hfree, -⟩⟩
                · exact ⟨hparams, hcell, rfl⟩
                · exact absurd ⟨hemits, hfree⟩ hstuck
          | ok f =>
              obtain ⟨hemits, hfree⟩ := Node.emits_of_generate hrun
              have hgrows := n.declares_generate name t
              rw [hrun] at hgrows
              rw [List.map_cons, (List.Perm.swap name entry _).nodup_iff, List.nodup_cons] at hnodup
              have hunknown₁ : ∀ other ∈ entry :: symbols.map Prod.snd,
                  t₁.signature? other = none := by
                intro other hother
                have hold : t.signature? other = none := hunknown other (by
                  rw [List.map_cons, (List.Perm.swap name entry _).mem_iff]
                  exact List.mem_cons_of_mem _ hother)
                refine hgrows.signature?_eq_none hold ?_
                rintro _ ⟨rfl, -⟩
                exact hnodup.1 hother
              have hrest := @ih t₁ (ht.declares hgrows) hnodup.2 hunknown₁
                (fun fs => k ((n.name, f) :: fs)) (fun nodes => hk _)
              rw [run_bind_of_ok hrun, hrest, hgrows.cellNames_eq]
              simp only [hemits, hfree, false_and, and_false, false_or, not_false_eq_true, true_and]

/-! ## Units -/

def Graph.cellSymbols (g : Graph) : List String := g.layout.cells.map StorageCell.symbol

namespace Backend

variable {g : Graph} {r : UnitRequest} {plan : UnitPlan} {name : String}

/-- The functions of the request's first unit, as a plan has them. -/
def firstSymbols (r : UnitRequest) (plan : UnitPlan) : List (Node × String) :=
  nodeSymbols (unitLabel 1 r) [unitLabel 1 r ++ "::entry"] plan.called

/-- A cell under the name of a function belongs to a node that is called like a unit. -/
theorem exists_node_of_meetsCell (hplan : UnitPlan.make g (Index.build g) g.layout r = .ok plan)
    (h : MeetsCell g.cellSymbols (unitLabel 1 r ++ "::entry") (firstSymbols r plan) name) :
    ∃ n ∈ g.nodes, "nodejit".toList <+: (Symbol.sanitize n.name).toList := by
  by_contra hnone
  push Not at hnone
  obtain ⟨cell, hcell, rfl⟩ := List.mem_map.1 h.mem
  rcases h.mem_or_eq with ⟨n, params, hmem, hparams⟩ | hentry
  · have hfunction : UnitFunction g r 1 cell.symbol params := ⟨plan, hplan, .inl ⟨n, hmem, hparams⟩⟩
    exact not_unitFunction_of_cell (Graph.unreserved_layout hnone) hcell params hfunction
  · have hfunction : UnitFunction g r 1 cell.symbol EntryContext.entryParams :=
      ⟨plan, hplan, .inr ⟨hentry, rfl⟩⟩
    exact not_unitFunction_of_cell (Graph.unreserved_layout hnone) hcell _ hfunction

/-- Over a table without functions that knows the cells, only functions under the names of cells
are refused. -/
theorem generateUnit_refused_iff {t : SymbolTable} (ht : t.Ready g.layout)
    (hunknown : ∀ name, t.signature? name = none)
    (hplan : UnitPlan.make g (Index.build g) g.layout r = .ok plan) (err : SymbolError) :
    ((generateUnit g (Index.build g) g.layout r 1).run t).1 = .error (.symbol err) ↔
      ∃ name, err = .incompatibleDeclaration name ∧
        MeetsCell t.cellNames (unitLabel 1 r ++ "::entry") (firstSymbols r plan) name := by
  obtain ⟨hnodup, hfree⟩ := nodeSymbols_apart (unitLabel 1 r) [unitLabel 1 r ++ "::entry"]
    plan.called
  have hnodup' : ((unitLabel 1 r ++ "::entry") :: (firstSymbols r plan).map Prod.snd).Nodup :=
    List.nodup_cons.2 ⟨fun hmem => hfree _ hmem (List.mem_singleton.2 rfl), hnodup⟩
  unfold generateUnit
  rw [run_bind_of_ok (run_ofExcept_of_ok hplan t)]
  refine refused_iff_meetsCell ht hnodup' (fun name _ => hunknown name) ?_ err
  intro nodes s hs hentry err
  exact error_bind_pure_iff.trans (EntryContext.generate_refused_iff _ hs hentry err)

/-- A backend that has compiled the cells of a graph and nothing else refuses a function exactly
when the request can be planned and generation comes to a function under the name of a cell. No
declaration is refused for its parameters, and none where no node is called like a unit. -/
theorem refuses_iff_meetsCell (options : Options) (g : Graph) (r : UnitRequest)
    (err : SymbolError) :
    (((start options g).generate g (Index.build g) g.layout r).1 = .error (.symbol err) ↔
      ∃ plan name, UnitPlan.make g (Index.build g) g.layout r = .ok plan ∧
        err = .incompatibleDeclaration name ∧
        MeetsCell g.cellSymbols (unitLabel 1 r ++ "::entry") (firstSymbols r plan) name) ∧
    (((start options g).generate g (Index.build g) g.layout r).1 = .error (.symbol err) →
      ∃ n ∈ g.nodes, "nodejit".toList <+: (Symbol.sanitize n.name).toList) := by
  obtain ⟨-, hfunctions, hcells⟩ := start_table options g
  change _ = g.cellSymbols at hcells
  have hready := (knows_start options g).ready
  have hunknown : ∀ name, (start options g).table.signature? name = none := by
    intro name
    rw [SymbolTable.signature?, SymbolTable.signatures, hfunctions]
    rfl
  have hiff : ((start options g).generate g (Index.build g) g.layout r).1 = .error (.symbol err) ↔
      ∃ plan name, UnitPlan.make g (Index.build g) g.layout r = .ok plan ∧
        err = .incompatibleDeclaration name ∧
        MeetsCell g.cellSymbols (unitLabel 1 r ++ "::entry") (firstSymbols r plan) name := by
    rw [outcome_generate, show (start options g).sequence + 1 = 1 from rfl]
    cases hplan : UnitPlan.make g (Index.build g) g.layout r with
    | error e =>
        unfold generateUnit
        rw [hplan]
        simp only [false_and, exists_false, iff_false, reduceCtorEq]
        intro h
        cases h
        exact sparesSymbols_make g g.layout r _ hplan
    | ok plan =>
        rw [generateUnit_refused_iff hready hunknown hplan, hcells]
        simp only [Except.ok.injEq, exists_and_left, exists_eq_left']
  refine ⟨hiff, fun h => ?_⟩
  obtain ⟨plan, name, hplan, -, hmeets⟩ := hiff.1 h
  exact exists_node_of_meetsCell hplan hmeets

end Backend

/-! ## A node that is called like a function

The cell of the sum's first input has the symbol that the function of the constant is to have.
-/

namespace BoxedName

def source : Node := ⟨"x - a", .constant (.i32 7), [], [⟨"value", .i32, none⟩]⟩

def sum : Node :=
  ⟨"nodejit1[x - a.value]::x", .math .add .i32,
    [⟨"a", .i32, some (.i32 0)⟩, ⟨"b", .i32, some (.i32 0)⟩], [⟨"result", .i32, none⟩]⟩

def graph : Graph := ⟨"boxed name", [source, sum], [], none⟩

def request : UnitRequest := ⟨[⟨"x - a", "value"⟩], []⟩

def plan : UnitPlan where
  version := graph.version
  outputs := [(⟨"x - a", "value"⟩, .i32)]
  outputLayout := ⟨[⟨.i32, 0⟩], 4, 4⟩
  bindings := ⟨[]⟩
  inputLayout := ⟨[], 0, 1⟩
  order := [source]

theorem reachable : graph.Reachable := by
  have h : Graph.Reachable ⟨"boxed name", [source], [], none⟩ :=
    .addNode (.empty _) (show (Graph.empty "boxed name").addNode "x - a" source.kind =
      .ok (source, _) from rfl)
  exact .addNode h
    (show Graph.addNode _ "nodejit1[x - a.value]::x" sum.kind = .ok (sum, _) from rfl)

theorem order_eq : evaluationOrder graph (Index.build graph) [] ["x - a"] = .ok [source] := by
  have hedges : (Index.build graph).edges = [] := by decide +kernel
  have hnodes : (Index.build graph).nodes = ["x - a", "nodejit1[x - a.value]::x"] := by
    decide +kernel
  simp only [evaluationOrder, scheduleRoots, Index.contains, hedges, Schedule.needs_nil, hnodes,
    ← Option.not_isSome]
  generalize graph.version = version
  cbv

theorem plan_made :
    UnitPlan.make graph (Index.build graph) graph.layout request = .ok plan := by
  refine UnitPlan.make_of_parts rfl (by decide) ?_ (by decide) rfl rfl order_eq
  decide +kernel

/-- The constant, which needs no cell at all, cannot be generated. -/
theorem refused_for_cell : graph.Reachable ∧
    "nodejit1[x - a.value]::x - a" ∈ graph.cellSymbols ∧
    Backend.UnitFunction graph request 1 "nodejit1[x - a.value]::x - a" [.address] ∧
    ((Backend.start {} graph).generate graph (Index.build graph) graph.layout request).1 =
      .error (.symbol (.incompatibleDeclaration "nodejit1[x - a.value]::x - a")) := by
  refine ⟨reachable, by decide +kernel, ⟨plan, plan_made, .inl ⟨source, ?_, by decide⟩⟩, ?_⟩
  · decide +kernel
  · simp only [Backend.generate, generateUnit, plan_made]
    decide +kernel

end BoxedName

end Dataflow
