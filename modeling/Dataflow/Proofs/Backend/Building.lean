import Dataflow.Proofs.Backend.Acceptance
import Dataflow.Proofs.Unit.EntryTypes

/-!
# Which units a backend builds

As long as nothing it was asked for has failed, a backend knows the cells of its layout and the
functions of the units it has numbered: `Backend.Settled`. The functions of the next unit are
then new to it, so each of them can be declared and defined. So the backend builds a unit exactly
for the requests that the graph accepts and that need no cycle, provided that code which is
checked passes: `Backend.Settled.exists_build_iff`.
-/

namespace Dataflow

open Ir Relation

/-- The functions of the nodes that are computed for the request pass the check, and their inputs
read outputs of their own types. -/
def Graph.PassesCheck (g : Graph) (r : UnitRequest) : Prop :=
  ∀ n ∈ g.nodes, g.Needs r n.name → ¬ r.Binds n.name → n.EmitsChecked ∧ g.Fed n

namespace Backend

variable {b b' : Backend} {g : Graph} {ix : Index} {layout : StorageLayout} {r : UnitRequest}
  {unit : GeneratedUnit} {name : String}

/-- The backend knows the cells of the layout and functions of units that it has numbered, and
has defined none but these. -/
structure Settled (b : Backend) (layout : StorageLayout) : Prop where
  ready : b.table.Ready layout
  cells : ∀ name ∈ b.table.cellNames, ∃ cell ∈ layout.cells, name = cell.symbol
  labels : ∀ s ∈ b.table.signatures, ∃ k q rest, k ≤ b.sequence ∧
    s.1 = unitLabel k q ++ "::" ++ rest
  defined : ∀ id ∈ b.table.definedFunctions, id < b.table.signatures.length

/-! ## New backends -/

/-- Defining cells defines no function, whether it succeeds or not. -/
theorem definedFunctions_defineCells (t : SymbolTable) (cells : List StorageCell) :
    (defineCells t cells).2.definedFunctions = t.definedFunctions := by
  induction cells generalizing t with
  | nil => rfl
  | cons cell cells ih =>
      have hdeclares := t.declares_declareCell cell.symbol .exported
      unfold defineCells
      split
      · rename_i hdeclare
        rw [hdeclare] at hdeclares
        exact hdeclares.definedFunctions
      · rename_i t₁ hdeclare
        rw [hdeclare] at hdeclares
        split
        · exact hdeclares.definedFunctions
        · rename_i t₂ hdefine
          have hcells : (defineCells t₂ cells).2.definedFunctions = t.definedFunctions := by
            unfold SymbolTable.defineCell at hdefine
            split at hdefine
            · contradiction
            · cases hdefine
              exact (ih _).trans hdeclares.definedFunctions
          split
          · rename_i hrest
            rw [hrest] at hcells
            exact hcells
          · rename_i hrest
            rw [hrest] at hcells
            exact hcells

theorem settled_compileGlobals {options : Options} {bank : Bank}
    (hnodup : (layout.cells.map StorageCell.symbol).Nodup)
    (h : (Backend.new options).compileGlobals layout = (.ok bank, b)) :
    b.Settled layout ∧ b.verify = options.verify := by
  have hnew : ∀ cell ∈ layout.cells, cell.symbol ∉ (Backend.new options).table.cellNames ∧
      cell.symbol ∉ (Backend.new options).table.definedCells :=
    fun _ _ => ⟨List.not_mem_nil, List.not_mem_nil⟩
  obtain ⟨bank', t, hcells, hfunctions, hnames⟩ := defineCells_of_nodup
    (t := (Backend.new options).table) rfl hnodup hnew
  unfold compileGlobals at h
  simp only [hcells] at h
  cases h
  have hsignatures : t.signatures = [] := by
    rw [SymbolTable.signatures, hfunctions]
    rfl
  refine ⟨⟨⟨?_, ?_⟩, ?_, ?_, ?_⟩, rfl⟩
  · intro name _
    rw [SymbolTable.signature?, hsignatures]
    rfl
  · intro cell hcell
    rw [hnames]
    exact List.mem_append_right _ (List.mem_map_of_mem hcell)
  · intro name hname
    rw [hnames] at hname
    obtain ⟨cell, hcell, rfl⟩ := List.mem_map.1 hname
    exact ⟨cell, hcell, rfl⟩
  · rw [hsignatures]
    intro s hs
    contradiction
  · have hdefined := definedFunctions_defineCells (Backend.new options).table layout.cells
    rw [hcells] at hdefined
    rw [hdefined]
    intro id hid
    contradiction

theorem settled_start (options : Options) (g : Graph) : (start options g).Settled g.layout := by
  obtain ⟨bank, hcompile⟩ := (start_table options g).1
  exact (settled_compileGlobals (StorageLayout.nodup_symbols g _) hcompile).1

/-! ## Functions of the next unit -/

theorem Settled.not_mem_of_label (h : b.Settled layout) (q : UnitRequest) (rest : String)
    (params : List Ty) :
    (unitLabel (b.sequence + 1) q ++ "::" ++ rest, params) ∉ b.table.signatures := by
  intro hmem
  obtain ⟨k, q', rest', hk, hname⟩ := h.labels _ hmem
  change unitLabel (b.sequence + 1) q ++ "::" ++ rest = _ at hname
  rw [String.append_assoc, String.append_assoc] at hname
  have hsequence := sequence_eq_of_label hname
  omega

/-- The functions of the next unit can all be declared. -/
theorem Settled.hasRoomFor (h : b.Settled g.layout) (hcells : g.layout.Unreserved)
    (r : UnitRequest) : b.HasRoomFor g r := by
  intro name params hfunction
  refine ⟨?_, ?_⟩
  · intro hname
    obtain ⟨cell, hcell, rfl⟩ := h.cells name hname
    exact not_unitFunction_of_cell hcells hcell params hfunction
  · intro known hknown
    obtain ⟨rest, rfl⟩ := hfunction.label
    obtain ⟨before, after, hsplit, -⟩ := List.lookup_eq_some_iff.1 hknown
    refine absurd ?_ (h.not_mem_of_label r rest known)
    rw [hsplit]
    simp

/-- The functions of a generated unit bear its label and have distinct names. -/
theorem names_generateNodes {symbols : List (Node × String)}
    {functions : List (String × Function)} {t t' : SymbolTable}
    (h : (generateNodes symbols).run t = (.ok functions, t')) :
    (functions.map Prod.snd).map Function.name = symbols.map Prod.snd := by
  induction symbols generalizing functions t with
  | nil =>
      obtain ⟨rfl, -⟩ := Generation.run_pure_eq_ok h
      rfl
  | cons entry symbols ih =>
      obtain ⟨n, name⟩ := entry
      obtain ⟨first, t₁, hfirst, h₁⟩ := Generation.run_bind_eq_ok h
      obtain ⟨rest, t₂, hrest, h₂⟩ := Generation.run_bind_eq_ok h₁
      obtain ⟨rfl, rfl⟩ := Generation.run_pure_eq_ok h₂
      obtain ⟨id, inputs, outputs, -, -, -, hfunction⟩ := Node.generate_eq_ok hfirst
      simp only [List.map_cons, (Node.function_eq_ok hfunction).2.1, ih hrest]

theorem name_of_generate {c : EntryContext} {f : Function} {t t' : SymbolTable}
    (h : (c.generate name).run t = (.ok f, t')) : f.name = name := by
  obtain ⟨id, t₁, d, d', -, -, -, rfl⟩ := EntryContext.generate_eq_ok h
  rfl

theorem names_generateUnit {sequence : Nat} {t t' : SymbolTable}
    (h : (generateUnit g ix layout r sequence).run t = (.ok unit, t')) :
    (unit.functions.map Function.name).Nodup ∧ ∀ f ∈ unit.functions,
      ∃ rest, f.name = unitLabel sequence r ++ "::" ++ rest := by
  obtain ⟨plan, nodes, entry, t₁, -, hnodes, hentry, rfl⟩ := generateUnit_eq_ok h
  have hname := name_of_generate hentry
  have hnames := names_generateNodes hnodes
  obtain ⟨hnodup, hfree⟩ := nodeSymbols_apart (unitLabel sequence r)
    [unitLabel sequence r ++ "::entry"] plan.called
  refine ⟨?_, ?_⟩
  · simp only [List.map_append, hnames, List.map_cons, List.map_nil, hname]
    refine List.Nodup.append hnodup (List.nodup_singleton _) ?_
    intro name hmem hentry'
    exact hfree name hmem hentry'
  · intro f hf
    rcases List.mem_append.1 hf with hf | hf
    · have hmem : f.name ∈ (nodeSymbols (unitLabel sequence r)
          [unitLabel sequence r ++ "::entry"] plan.called).map Prod.snd :=
        hnames ▸ List.mem_map_of_mem hf
      obtain ⟨⟨n, symbol⟩, hsymbol, hsame⟩ := List.mem_map.1 hmem
      rw [← hsame]
      exact exists_of_mem_nodeSymbols hsymbol
    · rw [List.mem_singleton.1 hf, hname]
      exact ⟨"entry", by rw [String.append_assoc, show "::" ++ "entry" = "::entry" by decide]⟩

/-- Functions with distinct names have distinct ids. -/
theorem nodup_ids {functions : List Function} {t : SymbolTable}
    (hnames : (functions.map Function.name).Nodup) (h : ∀ f ∈ functions, f.DeclaredIn t) :
    (functions.map Function.id).Nodup := by
  refine List.Nodup.of_map (fun id => ((t.signatures[id]?).map Prod.fst).getD "") ?_
  rw [List.map_map]
  have hsame : functions.map ((fun id => ((t.signatures[id]?).map Prod.fst).getD "") ∘
      Function.id) = functions.map Function.name := by
    apply List.map_congr_left
    intro f hf
    have hdeclared : t.signatures[f.id]? = some (f.name, f.params) := h f hf
    simp only [Function.comp_apply, hdeclared]
    rfl
  rw [hsame]
  exact hnames

/-! ## Building -/

theorem defineFunctions_of_new {t : SymbolTable} {functions : List Function}
    (hnodup : (functions.map Function.id).Nodup)
    (hnew : ∀ f ∈ functions, f.id ∉ t.definedFunctions) :
    ∃ t', defineFunctions t functions = (.ok (), t') := by
  induction functions generalizing t with
  | nil => exact ⟨t, rfl⟩
  | cons f functions ih =>
      obtain ⟨hfirst, hnodup'⟩ := List.nodup_cons.1 hnodup
      have hdefine : t.defineFunction f.id =
          .ok { t with definedFunctions := f.id :: t.definedFunctions } := by
        unfold SymbolTable.defineFunction
        rw [if_neg (by simpa using hnew f List.mem_cons_self)]
      unfold defineFunctions
      rw [hdefine]
      refine ih hnodup' ?_
      intro k hk hmem
      rcases List.mem_cons.1 hmem with hsame | hmem
      · exact hfirst (hsame ▸ List.mem_map_of_mem hk)
      · exact hnew k (List.mem_cons_of_mem _ hk) hmem

/-- Functions that are not defined yet can be compiled unless one of them fails the check. -/
theorem compileUnit_of_new (hids : (unit.functions.map Function.id).Nodup)
    (hnew : ∀ f ∈ unit.functions, f.id ∉ b.table.definedFunctions) :
    (b.compileUnit unit).1 = .ok () ∨ b.verify = true ∧ ∃ f ∈ unit.functions,
      f.wellTyped = false ∧ (b.compileUnit unit).1 = .error (.verification f.name) := by
  obtain ⟨t, hdefine⟩ := defineFunctions_of_new hids hnew
  unfold compileUnit
  split
  · rename_i f hfind
    have hfound := List.find?_some hfind
    rw [Bool.and_eq_true, Bool.not_eq_true'] at hfound
    exact .inr ⟨hfound.1, f, List.mem_of_find?_eq_some hfind, hfound.2, rfl⟩
  · rw [hdefine]
    exact .inl rfl

/-- What has just been generated can be compiled if it passes the check. -/
theorem Settled.exists_compileUnit (h : b.Settled layout)
    (hgenerate : b.generate g ix layout r = (.ok unit, b'))
    (hchecked : b.verify = true → ∀ f ∈ unit.functions, f.wellTyped = true) :
    ∃ b'', b'.compileUnit unit = (.ok (), b'') := by
  obtain ⟨hrun, hb'⟩ := generate_eq_ok hgenerate
  have hdeclared := declaredIn_of_generateUnit hrun
  obtain ⟨hnames, hlabels⟩ := names_generateUnit hrun
  have hgrows := declares_generateUnit g ix layout r (b.sequence + 1) b.table
  rw [hrun] at hgrows
  have hnew : ∀ f ∈ unit.functions, f.id ∉ b'.table.definedFunctions := by
    intro f hf hmem
    rw [hgrows.definedFunctions] at hmem
    -- an id that was defined before belongs to a function of an earlier unit
    obtain ⟨added, hadded, -⟩ := hgrows.signatures
    have hsignature : b'.table.signatures[f.id]? = some (f.name, f.params) := (hdeclared f hf).1
    rw [hadded, List.getElem?_append_left (h.defined f.id hmem)] at hsignature
    obtain ⟨rest, hname⟩ := hlabels f hf
    rw [hname] at hsignature
    exact h.not_mem_of_label r rest f.params (List.mem_of_getElem? hsignature)
  have hids := nodup_ids hnames fun f hf => (hdeclared f hf).1
  rcases compileUnit_of_new hids hnew with hcompile | ⟨hverify, f, hf, hill, -⟩
  · exact ⟨_, Prod.ext hcompile rfl⟩
  · rw [hchecked (by rwa [hb'] at hverify) f hf] at hill
    contradiction

theorem Settled.build (h : b.Settled layout)
    (hbuild : b.build g ix layout r = (.ok unit, b')) : b'.Settled layout := by
  obtain ⟨b₁, hgenerate, hcompile⟩ := build_eq_ok hbuild
  obtain ⟨hrun, hb₁⟩ := generate_eq_ok hgenerate
  obtain ⟨-, -, rfl⟩ := compileUnit_eq_ok hcompile
  have hdeclared := declaredIn_of_generateUnit hrun
  have hgrows := declares_generateUnit g ix layout r (b.sequence + 1) b.table
  rw [hrun] at hgrows
  have hsequence : b₁.sequence = b.sequence + 1 := by rw [hb₁]
  obtain ⟨added, hadded, hnew⟩ := hgrows.signatures
  obtain ⟨names, hnames, hcells⟩ := hgrows.cellNames
  have hready := h.ready.declares hgrows
  refine ⟨⟨hready.apart, hready.cells⟩, ?_, ?_, ?_⟩
  · intro name hname
    change name ∈ b₁.table.cellNames at hname
    rw [hnames] at hname
    rcases List.mem_append.1 hname with hold | hname
    · exact h.cells name hold
    · obtain ⟨port, cell, hcell, rfl⟩ := hcells name hname
      exact ⟨cell, (StorageLayout.mem_of_cell? hcell).1, rfl⟩
  · intro s hs
    change s ∈ b₁.table.signatures at hs
    rw [hadded] at hs
    change ∃ k q rest, k ≤ b₁.sequence ∧ _
    rw [hsequence]
    rcases List.mem_append.1 hs with hold | hs
    · obtain ⟨k, q, rest, hk, hname⟩ := h.labels s hold
      exact ⟨k, q, rest, Nat.le_succ_of_le hk, hname⟩
    · obtain ⟨rest, hname⟩ := (hnew s hs).label
      exact ⟨b.sequence + 1, r, rest, Nat.le_refl _, hname⟩
  · intro id hid
    change id < b₁.table.signatures.length
    rcases List.mem_append.1 hid with hid | hid
    · obtain ⟨f, hf, rfl⟩ := List.mem_map.1 (List.mem_reverse.1 hid)
      exact (List.getElem?_eq_some_iff.1 (hdeclared f hf).1).1
    · rw [hgrows.definedFunctions] at hid
      rw [hadded, List.length_append]
      exact Nat.lt_add_right _ (h.defined id hid)

/-- Functions are listed for computed nodes. -/
theorem called_of_lookup (hg : g.WellFormed) {plan : UnitPlan} (hparts : plan.Parts g r)
    {label : String} {taken : List String} {nodes : List (String × Function)} {t t' : SymbolTable}
    (h : (generateNodes (nodeSymbols label taken plan.called)).run t = (.ok nodes, t')) {n : Node}
    (hn : n ∈ g.nodes) {f : Function} (hf : nodes.lookup n.name = some f) :
    n ∈ plan.called ∧ n.IsFunction f := by
  obtain ⟨before, after, hsplit, -⟩ := List.lookup_eq_some_iff.1 hf
  obtain ⟨m, symbol, hsymbol, hname, hfunction⟩ :=
    isFunction_of_mem_generateNodes h (show (n.name, f) ∈ nodes by simp [hsplit])
  have hcalled := mem_of_mem_nodeSymbols hsymbol
  obtain rfl :=
    Graph.eq_of_name_eq hg.names_nodup ((hparts.mem_called_iff hg).1 hcalled).1 hn hname
  exact ⟨hcalled, hfunction⟩

/-- The entry function of a unit is made in a context that suits the graph. -/
theorem suits_of_generateNodes (hg : g.WellFormed)
    {plan : UnitPlan} (hparts : plan.Parts g r) {label : String} {taken : List String}
    {nodes : List (String × Function)} {t t' : SymbolTable}
    (h : (generateNodes (nodeSymbols label taken plan.called)).run t = (.ok nodes, t'))
    (layout : StorageLayout) :
    EntryContext.Suits ⟨Index.build g, layout, plan, nodes⟩ g := by
  refine ⟨hg, rfl, evaluationOrder_eq_ok hparts.order, ?_⟩
  intro n hn f hf
  obtain ⟨-, id, symbol, inputs, outputs, hinputs, houtputs, hfunction⟩ :=
    called_of_lookup hg hparts h hn hf
  rw [Node.params_of_portTypes hinputs houtputs, (Node.function_eq_ok hfunction).2.2.1]

/-- The functions of a unit pass the check exactly when those of its nodes do and their inputs read
outputs of their own types. -/
theorem wellTyped_generateUnit_iff (hg : g.WellFormed) {layout : StorageLayout} {sequence : Nat}
    {t t' : SymbolTable}
    (h : (generateUnit g (Index.build g) layout r sequence).run t = (.ok unit, t')) :
    (∀ f ∈ unit.functions, f.wellTyped = true) ↔ g.PassesCheck r := by
  obtain ⟨plan, nodes, entry, t₁, hplan, hnodes, hentry, rfl⟩ := generateUnit_eq_ok h
  have hparts := UnitPlan.parts_of_make hplan
  have hfed : entry.wellTyped = true ↔ ∀ n ∈ plan.called, g.Fed n :=
    EntryContext.wellTyped_generate_iff (suits_of_generateNodes hg hparts hnodes layout) hentry
  have hchecked : (∀ f ∈ nodes.map Prod.snd, f.wellTyped = true) ↔
      ∀ n ∈ plan.called, n.EmitsChecked := by
    constructor
    · intro htyped n hn
      obtain ⟨symbol, hsymbol⟩ := mem_nodeSymbols hn
      obtain ⟨f, hf, hfunction⟩ := exists_function_of_generateNodes hnodes hsymbol
      exact hfunction.emitsChecked (htyped f hf)
    · intro hemits f hf
      obtain ⟨⟨name, _⟩, hmem, rfl⟩ := List.mem_map.1 hf
      obtain ⟨n, symbol, hsymbol, -, hfunction⟩ := isFunction_of_mem_generateNodes hnodes hmem
      exact hemits n (mem_of_mem_nodeSymbols hsymbol) _ hfunction
  simp only [List.forall_mem_append, List.forall_mem_singleton, hchecked, hfed, ← forall₂_and,
    hparts.mem_called_iff hg, Graph.PassesCheck, and_imp]

/-- A unit is built exactly for the requests that the graph accepts without a cycle and, if code is
checked, for which all that is computed passes the check. -/
theorem Settled.exists_build_iff (h : b.Settled g.layout) (hg : g.WellFormed)
    (hcells : g.layout.Unreserved) :
    (∃ unit b', b.build g (Index.build g) g.layout r = (.ok unit, b')) ↔
      g.Accepts r ∧ g.Acyclic r ∧ (b.verify = true → g.PassesCheck r) := by
  constructor
  · rintro ⟨unit, b', hbuild⟩
    obtain ⟨b₁, hgenerate, hcompile⟩ := build_eq_ok hbuild
    obtain ⟨hrun, hb₁⟩ := generate_eq_ok hgenerate
    obtain ⟨-, hchecked, -⟩ := compileUnit_eq_ok hcompile
    have haccepts := accepts_of_generateUnit hg hrun
    refine ⟨haccepts, ?_, fun hverify => (wellTyped_generateUnit_iff hg hrun).1 (hchecked ?_)⟩
    · rcases generateUnit_outcome hg haccepts h.ready (h.hasRoomFor hcells r) with
        ⟨_, _, -, hacyclic⟩ | ⟨name, t, herror, -⟩
      · exact hacyclic
      · rw [hrun] at herror
        cases herror
    · rw [hb₁]
      exact hverify
  · rintro ⟨haccepts, hacyclic, hpasses⟩
    rcases generateUnit_outcome hg haccepts h.ready (h.hasRoomFor hcells r) with
      ⟨unit, t, hrun, -⟩ | ⟨name, -, -, hneeds, hcycle⟩
    · have hgenerate : b.generate g (Index.build g) g.layout r =
          (.ok unit, { b with table := t, sequence := b.sequence + 1 }) := by
        unfold generate
        simp only [hrun]
      obtain ⟨b', hcompile⟩ := h.exists_compileUnit hgenerate fun hverify =>
        (wellTyped_generateUnit_iff hg hrun).2 (hpasses hverify)
      refine ⟨unit, b', ?_⟩
      unfold Backend.build
      simp only [hgenerate, hcompile]
    · exact absurd hcycle (hacyclic name hneeds)

end Backend

end Dataflow
