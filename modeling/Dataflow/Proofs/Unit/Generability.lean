import Dataflow.Proofs.Unit.Declared

/-!
# Which requests can be generated

Whether generating a unit succeeds depends on the symbol table in one way only: the table has
to admit the functions of the unit. Everything else that generation asks for, types, code and
known values, is decided by the graph and the request. So a unit that can be generated over one
table can be generated over every table that admits its functions.
-/

namespace Dataflow

open Ir Generation

/-! ## Tables that know the cells of a layout -/

namespace SymbolTable

/-- The cells of the layout are known, and no name is that of a function and of a cell. -/
structure Ready (t : SymbolTable) (storage : StorageLayout) : Prop where
  apart : t.Apart
  cells : ∀ cell ∈ storage.cells, cell.symbol ∈ t.cellNames

variable {t t' : SymbolTable} {storage : StorageLayout} {name : String} {params : List Ty}

theorem Ready.declares {function : String → List Ty → Prop} {cell : String → Prop}
    (h : t.Ready storage) (hdeclares : t.Declares function cell t') : t'.Ready storage :=
  ⟨hdeclares.apart h.apart,
    fun c hc => hdeclares.extends.cellNames.subset (h.cells c hc)⟩

/-- Declaring other functions keeps a function admitted. -/
theorem Admits.declares {function : String → List Ty → Prop} (h : t.Admits name params)
    (hfunction : ∀ ps, ¬ function name ps)
    (hdeclares : t.Declares function (fun _ => False) t') : t'.Admits name params := by
  obtain ⟨⟨fs, hfs, hfunctions⟩, ⟨cs, hcs, hcells⟩, -, -⟩ := hdeclares
  refine ⟨?_, ?_⟩
  · rw [hcs, List.mem_append]
    rintro (hold | hnew)
    · exact h.1 hold
    · exact hcells name hnew
  · intro known hknown
    have hnone : fs.lookup name = none := by
      rw [List.lookup_eq_none_iff]
      intro s hs
      simp only [bne_iff_ne, ne_eq]
      rintro rfl
      exact hfunction s.2 (hfunctions s hs)
    unfold signature? at hknown
    rw [hfs, List.lookup_append, hnone, Option.or_none] at hknown
    exact h.2 known hknown

end SymbolTable

/-! ## Functions of nodes -/

variable {t t' s : SymbolTable} {storage : StorageLayout} {n : Node} {name : String}
  {symbols : List (Node × String)} {functions : List (String × Function)}

namespace Node

/-- The table admits a function of the node under this name. -/
def AdmittedBy (n : Node) (t : SymbolTable) (name : String) : Prop :=
  ∀ params, n.params = .ok params → t.Admits name params

theorem admittedBy_of_generate {f : Function} (h : (n.generate name).run t = (.ok f, t')) :
    n.IsFunction f ∧ n.AdmittedBy t name := by
  obtain ⟨id, inputs, outputs, hinputs, houtputs, hdeclare, hfunction⟩ := generate_eq_ok h
  refine ⟨⟨id, name, inputs, outputs, hinputs, houtputs, hfunction⟩, ?_⟩
  intro params hparams
  rw [params_of_portTypes hinputs houtputs] at hparams
  cases hparams
  exact (SymbolTable.declareFunction_ok_iff .internal).1 ⟨id, t', hdeclare⟩

theorem generate_of_admittedBy {f : Function} (h : n.IsFunction f)
    (hadmitted : n.AdmittedBy t name) : ∃ f t', (n.generate name).run t = (.ok f, t') := by
  obtain ⟨id, name₁, inputs, outputs, hinputs, houtputs, hfunction⟩ := h
  obtain ⟨id', t', hdeclare⟩ := (SymbolTable.declareFunction_ok_iff .internal).2
    (hadmitted _ (params_of_portTypes hinputs houtputs))
  obtain ⟨f', hf'⟩ : ∃ f', n.function id' name inputs outputs = .ok f' := by
    rw [n.function_rename id id' name₁ name, hfunction]
    exact ⟨_, rfl⟩
  refine ⟨f', t', ?_⟩
  unfold generate
  rw [run_bind_of_ok (run_ofExcept_of_ok hinputs t),
    run_bind_of_ok (run_ofExcept_of_ok houtputs t),
    run_bind_of_ok (run_declareFunction_of_ok hdeclare), hf']
  rfl

end Node

theorem admittedBy_of_generateNodes (hnodup : (symbols.map Prod.snd).Nodup)
    (h : (generateNodes symbols).run t = (.ok functions, t')) :
    functions.map Prod.fst = symbols.map (fun entry => entry.1.name) ∧
      ∀ entry ∈ symbols, (∃ f, entry.1.IsFunction f) ∧ entry.1.AdmittedBy t entry.2 := by
  induction symbols generalizing functions t with
  | nil =>
      obtain ⟨rfl, -⟩ := run_pure_eq_ok h
      exact ⟨rfl, by simp⟩
  | cons entry symbols ih =>
      obtain ⟨n, name⟩ := entry
      obtain ⟨first, t₁, hfirst, h₁⟩ := run_bind_eq_ok h
      obtain ⟨rest, t₂, hrest, h₂⟩ := run_bind_eq_ok h₁
      obtain ⟨rfl, rfl⟩ := run_pure_eq_ok h₂
      obtain ⟨hnew, hnodup'⟩ := List.nodup_cons.1 hnodup
      obtain ⟨hnames, hadmitted⟩ := ih hnodup' hrest
      have hgrows := n.declares_generate name t
      rw [hfirst] at hgrows
      refine ⟨by rw [List.map_cons, List.map_cons, hnames], ?_⟩
      intro entry hentry
      rcases List.mem_cons.1 hentry with rfl | hentry
      · obtain ⟨hfunction, hadmits⟩ := Node.admittedBy_of_generate hfirst
        exact ⟨⟨first, hfunction⟩, hadmits⟩
      · obtain ⟨hfunction, hadmits⟩ := hadmitted entry hentry
        exact ⟨hfunction, fun params hparams =>
          (hadmits params hparams).of_extends hgrows.extends⟩

theorem generateNodes_of_admittedBy (hnodup : (symbols.map Prod.snd).Nodup)
    (h : ∀ entry ∈ symbols, (∃ f, entry.1.IsFunction f) ∧ entry.1.AdmittedBy t entry.2) :
    ∃ functions t', (generateNodes symbols).run t = (.ok functions, t') := by
  induction symbols generalizing t with
  | nil => exact ⟨[], t, rfl⟩
  | cons entry symbols ih =>
      obtain ⟨n, name⟩ := entry
      obtain ⟨hnew, hnodup'⟩ := List.nodup_cons.1 hnodup
      obtain ⟨⟨_, hfunction⟩, hadmits⟩ := h (n, name) List.mem_cons_self
      obtain ⟨f, t₁, hfirst⟩ := Node.generate_of_admittedBy hfunction hadmits
      have hgrows := n.declares_generate name t
      rw [hfirst] at hgrows
      -- the first function has another name than those that follow
      have hlater : ∀ entry ∈ symbols,
          (∃ f, entry.1.IsFunction f) ∧ entry.1.AdmittedBy t₁ entry.2 := by
        intro entry hentry
        obtain ⟨hcode, hadmitted⟩ := h entry (List.mem_cons_of_mem _ hentry)
        refine ⟨hcode, fun params hparams => (hadmitted params hparams).declares ?_ hgrows⟩
        rintro _ ⟨hname, -⟩
        exact hnew (List.mem_map.2 ⟨entry, hentry, hname⟩)
      obtain ⟨rest, t', hrest⟩ := ih hnodup' hlater
      refine ⟨(n.name, f) :: rest, t', ?_⟩
      unfold generateNodes
      rw [run_bind_of_ok hfirst, run_bind_of_ok hrest]
      rfl

/-! ## Entry functions -/

/-- The outputs whose values are at hand. -/
def EntryDraft.known (d : EntryDraft) : List PortRef := d.values.map Prod.fst

/-- Of a list of pairs, only the keys decide which look-ups succeed. -/
theorem exists_lookup_of_keys {α β γ : Type} [BEq α] {xs : List (α × β)}
    {ys : List (α × γ)} (hkeys : ys.map Prod.fst = xs.map Prod.fst) {k : α} {x : β}
    (h : xs.lookup k = some x) : ∃ y, ys.lookup k = some y := by
  obtain ⟨pair, hpair, hk⟩ := List.lookup_isSome_iff.1 (Option.isSome_iff_exists.2 ⟨x, h⟩)
  have hmem : pair.1 ∈ ys.map Prod.fst := hkeys ▸ List.mem_map_of_mem hpair
  obtain ⟨pair', hpair', heq⟩ := List.mem_map.1 hmem
  exact Option.isSome_iff_exists.1 (List.lookup_isSome_iff.2 ⟨pair', hpair', heq ▸ hk⟩)

namespace EntryContext

variable {c c' : EntryContext} {d d' e : EntryDraft} {ports : List Port} {types : List Ty}

/-- The contexts differ at most in the code of the nodes' functions. -/
structure Alike (c c' : EntryContext) : Prop where
  index : c'.index = c.index
  storage : c'.storage = c.storage
  plan : c'.plan = c.plan
  functions : c'.functions.map Prod.fst = c.functions.map Prod.fst

theorem loadBound_again (hc : c.Alike c') (hknown : e.known = d.known)
    (h : c.loadBound n d ports = .ok d') :
    ∃ e', c'.loadBound n e ports = .ok e' ∧ e'.known = d'.known := by
  induction ports generalizing d e with
  | nil =>
      cases h
      exact ⟨e, rfl, hknown⟩
  | cons p ports ih =>
      obtain ⟨slot, ty, offset, hslot, hty, hoffset, h₁⟩ := loadBound_cons_eq_ok h
      have hdefined : (e.defineOutput (n.portRef p) (.load ty 0 offset)).known =
          (d.defineOutput (n.portRef p) (.load ty 0 offset)).known :=
        congrArg (n.portRef p :: ·) hknown
      unfold loadBound
      simp only [hc.plan, hslot, hty, hoffset]
      exact ih hdefined h₁

theorem argument_again (hc : c.Alike c') (hs : s.Ready c.storage) (hknown : e.known = d.known)
    {p : Port} {v : Var} (h : (c.argument n d p).run t = (.ok (v, d'), t')) :
    ∃ w e' s', (c'.argument n e p).run s = (.ok (w, e'), s') ∧ e'.known = d'.known := by
  obtain ⟨ty, hty, ⟨origin, horigin, hvalue, rfl, -⟩ |
    ⟨horigin, cell, linkage, hcell, -, -, rfl⟩⟩ := argument_eq_ok h
  · obtain ⟨w, hw⟩ := exists_lookup_of_keys hknown hvalue
    refine ⟨w, e, s, ?_, hknown⟩
    unfold argument
    simp only
    rw [run_bind_of_ok (run_ofExcept_of_ok hty s), hc.index, horigin]
    simp only
    rw [hw]
    rfl
  · have hunknown : s.signature? cell.symbol = none :=
      hs.apart _ (hs.cells cell (StorageLayout.mem_of_cell? hcell).1)
    obtain ⟨known, cells, hdeclare, -⟩ := s.declareCell_of_unknown .imported hunknown
    refine ⟨e.next + 1, cellLoad e cell.symbol known.isFinal ty, { s with cells }, ?_, hknown⟩
    unfold argument
    simp only
    rw [run_bind_of_ok (run_ofExcept_of_ok hty s), hc.index, horigin, hc.storage]
    simp only
    rw [hcell]
    exact run_bind_of_ok (run_declareCell_of_ok hdeclare) _

theorem arguments_again (hc : c.Alike c') (hs : s.Ready c.storage) (hknown : e.known = d.known)
    {vs : List Var} (h : (c.arguments n d ports).run t = (.ok (vs, d'), t')) :
    ∃ ws e' s', (c'.arguments n e ports).run s = (.ok (ws, e'), s') ∧ e'.known = d'.known := by
  induction ports generalizing d e t s vs with
  | nil =>
      cases h
      exact ⟨[], e, s, rfl, hknown⟩
  | cons p ports ih =>
      obtain ⟨v, rest, d₁, t₁, hfirst, hrest, rfl⟩ := arguments_cons_eq_ok h
      obtain ⟨w, e₁, s₁, hw, hknown₁⟩ := argument_again hc hs hknown hfirst
      have hs₁ := hs.declares (c'.declares_argument n e p s)
      rw [hw] at hs₁
      obtain ⟨ws, e', s', hws, hknown'⟩ := ih hs₁ hknown₁ hrest
      refine ⟨w :: ws, e', s', ?_, hknown'⟩
      unfold arguments
      rw [run_bind_of_ok hw]
      exact run_bind_of_ok hws _

theorem known_outputSlots (d : EntryDraft) (types : List Ty) :
    (outputSlots d types).2.known = d.known := by
  induction types generalizing d with
  | nil => rfl
  | cons ty types ih => exact ih _

theorem known_loadResults (slot slot' : Nat) (hknown : e.known = d.known) :
    (loadResults n e slot' ports types).known = (loadResults n d slot ports types).known := by
  induction ports generalizing d e slot slot' types with
  | nil =>
      unfold loadResults
      exact hknown
  | cons p ports ih =>
      cases types with
      | nil =>
          unfold loadResults
          exact hknown
      | cons ty types => exact ih _ _ (congrArg (n.portRef p :: ·) hknown)

theorem call_again (hc : c.Alike c') (hs : s.Ready c.storage) (hknown : e.known = d.known)
    (h : (c.call n d).run t = (.ok d', t')) :
    ∃ e' s', (c'.call n e).run s = (.ok e', s') ∧ e'.known = d'.known := by
  obtain ⟨args, d₁, types, f, hargs, htypes, hlookup, rfl⟩ := call_eq_ok h
  obtain ⟨args', e₁, s₁, hargs', hknown₁⟩ := arguments_again hc hs hknown hargs
  obtain ⟨f', hf'⟩ := exists_lookup_of_keys hc.functions hlookup
  refine ⟨callWith n f' args' types e₁, s₁, ?_, ?_⟩
  · unfold call
    rw [run_bind_of_ok hargs', run_bind_of_ok (run_ofExcept_of_ok htypes s₁)]
    simp only [hf']
    rfl
  · apply known_loadResults
    exact (known_outputSlots e₁ types).trans
      (hknown₁.trans (known_outputSlots d₁ types).symm)

theorem evaluate_again (hc : c.Alike c') (hs : s.Ready c.storage) (hknown : e.known = d.known)
    {nodes : List Node} (h : (c.evaluate d nodes).run t = (.ok d', t')) :
    ∃ e' s', (c'.evaluate e nodes).run s = (.ok e', s') ∧ e'.known = d'.known := by
  induction nodes generalizing d e t s with
  | nil =>
      cases h
      exact ⟨e, s, rfl, hknown⟩
  | cons n nodes ih =>
      unfold evaluate
      rw [hc.plan]
      obtain ⟨d₁, t₁, ⟨hbinds, hload, rfl⟩ | ⟨hbinds, hcall⟩, h₁⟩ := evaluate_cons_eq_ok h
      · obtain ⟨e₁, he₁, hknown₁⟩ := loadBound_again hc hknown hload
        rw [if_pos hbinds, run_bind_of_ok (run_ofExcept_of_ok he₁ s)]
        exact ih hs hknown₁ h₁
      · obtain ⟨e₁, s₁, he₁, hknown₁⟩ := call_again hc hs hknown hcall
        have hs₁ := hs.declares (c'.declares_call n e s)
        rw [he₁] at hs₁
        rw [if_neg (Bool.eq_false_iff.1 hbinds), run_bind_of_ok he₁]
        exact ih hs₁ hknown₁ h₁

theorem storeOutputs_again (hc : c.Alike c') (hknown : e.known = d.known) {field : Nat}
    {outputs : List TypedPort} (h : c.storeOutputs d field outputs = .ok d') :
    ∃ e', c'.storeOutputs e field outputs = .ok e' := by
  induction outputs generalizing d e field with
  | nil => exact ⟨e, rfl⟩
  | cons typed outputs ih =>
      obtain ⟨v, offset, hvalue, hoffset, h₁⟩ := storeOutputs_cons_eq_ok h
      obtain ⟨w, hw⟩ := exists_lookup_of_keys hknown hvalue
      have hpushed : (e.push (.store w 1 offset)).known = (d.push (.store v 1 offset)).known :=
        hknown
      unfold storeOutputs
      rw [hc.plan, hw, hoffset]
      exact ih hpushed h₁

theorem generate_again (hc : c.Alike c') (hs : s.Ready c.storage) {name name' : String}
    {f : Function} (h : (c.generate name).run t = (.ok f, t'))
    (hadmits : s.Admits name' entryParams) :
    ∃ f' s', (c'.generate name').run s = (.ok f', s') := by
  obtain ⟨id, t₁, d, d', -, hevaluate, hstore, -⟩ := generate_eq_ok h
  obtain ⟨id', s₁, hdeclare⟩ := (SymbolTable.declareFunction_ok_iff .exported).2 hadmits
  have hs₁ := hs.declares (s.declares_declareFunction name' .exported entryParams)
  rw [hdeclare] at hs₁
  obtain ⟨e, s₂, he, hknown⟩ := evaluate_again hc hs₁ rfl hevaluate
  obtain ⟨e', he'⟩ := storeOutputs_again hc hknown hstore
  have hrun' : ∀ k : EntryDraft → Generation Function,
      (c'.evaluate .start c'.plan.order >>= fun d =>
        Generation.ofExcept (c'.storeOutputs d 0 c'.plan.outputs) >>= k).run s₁ =
          (k e').run s₂ := by
    intro k
    rw [hc.plan, run_bind_of_ok he, run_bind_of_ok (run_ofExcept_of_ok he' s₂)]
  exact ⟨_, s₂, (run_bind_of_ok (run_declareFunction_of_ok hdeclare) _).trans (hrun' _)⟩

end EntryContext

/-! ## Units -/

/-- Nothing but the symbols known already can keep the request from being generated. -/
def Generable (g : Graph) (ix : Index) (storage : StorageLayout) (r : UnitRequest) : Prop :=
  ∃ sequence t, t.Ready storage ∧
    ∃ unit t', (generateUnit g ix storage r sequence).run t = (.ok unit, t')

variable {g : Graph} {ix : Index} {r : UnitRequest} {sequence sequence' : Nat}
  {unit : GeneratedUnit}

theorem admits_of_generateUnit
    (h : (generateUnit g ix storage r sequence).run t = (.ok unit, t')) {params : List Ty}
    (hfunction : IsUnitFunction g ix storage r sequence name params) : t.Admits name params := by
  obtain ⟨plan, nodes, entry, t₁, hplan, hnodes, hentry, -⟩ := generateUnit_eq_ok h
  obtain ⟨plan', hplan', hfunction⟩ := hfunction
  rw [hplan] at hplan'
  cases hplan'
  rcases hfunction with ⟨n, hn, hparams⟩ | ⟨rfl, rfl⟩
  · have hnodup := (nodeSymbols_apart (unitLabel sequence r) [unitLabel sequence r ++ "::entry"]
      plan.called).1
    exact ((admittedBy_of_generateNodes hnodup hnodes).2 (n, name) hn).2 params hparams
  · have hgrows := declares_generateNodes
      (nodeSymbols (unitLabel sequence r) [unitLabel sequence r ++ "::entry"] plan.called) t
    rw [hnodes] at hgrows
    obtain ⟨id, t₂, hdeclare, -⟩ := run_bind_eq_ok hentry
    have hadmits := (SymbolTable.declareFunction_ok_iff .exported).1
      ⟨id, t₂, run_declareFunction_eq_ok hdeclare⟩
    exact hadmits.of_extends hgrows.extends

/-- A unit that was generated over one table can be generated over every table that admits its
functions, under any number. -/
theorem generateUnit_again (h : (generateUnit g ix storage r sequence).run t = (.ok unit, t'))
    (hs : s.Ready storage)
    (hadmits : ∀ name params, IsUnitFunction g ix storage r sequence' name params →
      s.Admits name params) :
    ∃ unit' s', (generateUnit g ix storage r sequence').run s = (.ok unit', s') := by
  obtain ⟨plan, nodes, entry, t₁, hplan, hnodes, hentry, -⟩ := generateUnit_eq_ok h
  obtain ⟨hnodup, hfree⟩ := nodeSymbols_apart (unitLabel sequence' r)
    [unitLabel sequence' r ++ "::entry"] plan.called
  obtain ⟨hkeys, hcode⟩ := admittedBy_of_generateNodes
    (nodeSymbols_apart (unitLabel sequence r) _ plan.called).1 hnodes
  -- both runs name the same nodes, each in its own way
  have hcalled : ∀ n ∈ plan.called, ∃ f, n.IsFunction f := by
    intro n hn
    rw [← map_fst_nodeSymbols (unitLabel sequence r) [unitLabel sequence r ++ "::entry"]
      plan.called] at hn
    obtain ⟨entry, hmem, rfl⟩ := List.mem_map.1 hn
    exact (hcode entry hmem).1
  obtain ⟨nodes', s₁, hnodes'⟩ := generateNodes_of_admittedBy hnodup fun entry hmem =>
    ⟨hcalled entry.1 (mem_of_mem_nodeSymbols hmem), fun params hparams =>
      hadmits entry.2 params ⟨plan, hplan, Or.inl ⟨entry.1, hmem, hparams⟩⟩⟩
  have hkeys' := (admittedBy_of_generateNodes hnodup hnodes').1
  have hnames : ∀ label taken, (nodeSymbols label taken plan.called).map
      (fun entry => entry.1.name) = plan.called.map Node.name := by
    intro label taken
    rw [← map_fst_nodeSymbols label taken plan.called, List.map_map, map_fst_nodeSymbols]
    rfl
  have halike : EntryContext.Alike ⟨ix, storage, plan, nodes⟩ ⟨ix, storage, plan, nodes'⟩ := by
    refine ⟨rfl, rfl, rfl, ?_⟩
    change nodes'.map Prod.fst = nodes.map Prod.fst
    rw [hkeys', hkeys, hnames, hnames]
  have hgrows := declares_generateNodes (nodeSymbols (unitLabel sequence' r)
    [unitLabel sequence' r ++ "::entry"] plan.called) s
  rw [hnodes'] at hgrows
  have hentryAdmits : s₁.Admits (unitLabel sequence' r ++ "::entry") EntryContext.entryParams := by
    refine (hadmits _ _ ⟨plan, hplan, Or.inr ⟨rfl, rfl⟩⟩).declares ?_ hgrows
    rintro params ⟨n, hn, -⟩
    exact hfree _ (List.mem_map_of_mem hn) (List.mem_singleton.2 rfl)
  obtain ⟨entry', s', hentry'⟩ := EntryContext.generate_again halike (hs.declares hgrows) hentry
    hentryAdmits
  exact ⟨_, s', (run_bind_of_ok (run_ofExcept_of_ok hplan s) _).trans
    ((run_bind_of_ok hnodes' _).trans (run_bind_of_ok hentry' _))⟩

/-- A unit is generated exactly when its request can be generated at all and the table admits
its functions. -/
theorem generateUnit_ok_iff (hs : s.Ready storage) :
    (∃ unit s', (generateUnit g ix storage r sequence).run s = (.ok unit, s')) ↔
      Generable g ix storage r ∧ ∀ name params,
        IsUnitFunction g ix storage r sequence name params → s.Admits name params := by
  constructor
  · rintro ⟨unit, s', h⟩
    exact ⟨⟨sequence, s, hs, unit, s', h⟩, fun _ _ hfunction =>
      admits_of_generateUnit h hfunction⟩
  · rintro ⟨⟨sequence₀, t, -, unit, t', h⟩, hadmits⟩
    exact generateUnit_again h hs hadmits

end Dataflow
