import Dataflow.Proofs.SymbolTable.Declarations

/-!
# Declaring a symbol again

A declaration has its effect on the table once: made again, it gets the same answer and changes
nothing, whether it is refused or not. `SymbolTable.Keeps` compares two tables by the declarations
that are settled in them. Declaring functions and importing cells unsettles nothing, so what has
been declared on the way to a later table can be declared in that table to the same answers.
-/

namespace Dataflow

namespace Linkage

theorem merge_imported (l : Linkage) : l.merge imported = l := by cases l <;> rfl

theorem merge_self (l : Linkage) : l.merge l = l := by cases l <;> rfl

theorem merge_comm (k l : Linkage) : k.merge l = l.merge k := by
  cases k <;> cases l <;> rfl

theorem merge_assoc (j k l : Linkage) : (j.merge k).merge l = j.merge (k.merge l) := by
  cases j <;> cases k <;> cases l <;> rfl

end Linkage

namespace SymbolTable

variable {t s u : SymbolTable} {name other : String} {linkage known : Linkage}
  {params : List Ir.Ty} {id : Nat}

/-! ## Functions -/

/-- The table with all functions of the name linked more widely. -/
def widen (t : SymbolTable) (name : String) (linkage : Linkage) : SymbolTable :=
  { t with functions := t.functions.map fun f =>
      if f.name = name then { f with linkage := f.linkage.merge linkage } else f }

theorem widen_widen (t : SymbolTable) (name : String) (linkage : Linkage) :
    (t.widen name linkage).widen name linkage = t.widen name linkage := by
  unfold widen
  simp only [List.map_map]
  congr 1
  apply List.map_congr_left
  intro f _
  by_cases hname : f.name = name
  · simp [hname, Linkage.merge_assoc, Linkage.merge_self]
  · simp [hname]

theorem widen_comm (t : SymbolTable) (name other : String) (linkage linkage' : Linkage) :
    (t.widen name linkage).widen other linkage' = (t.widen other linkage').widen name linkage := by
  unfold widen
  simp only [List.map_map]
  congr 1
  apply List.map_congr_left
  intro f _
  by_cases hname : f.name = name <;> by_cases hother : f.name = other
  · simp [← hname, ← hother, Linkage.merge_assoc, Linkage.merge_comm linkage]
  · simp [← hname, hother]
  · simp [hname, ← hother]
  · simp [hname, hother]

theorem name_widen (f : FunctionSymbol) (name : String) (linkage : Linkage) :
    (if f.name = name then { f with linkage := f.linkage.merge linkage } else f).name = f.name := by
  split <;> rfl

theorem functionId_widen (t : SymbolTable) (name other : String) (linkage : Linkage) :
    (t.widen name linkage).functionId other = t.functionId other := by
  unfold functionId widen
  rw [List.findIdx_map]
  congr 1
  funext f
  rw [Function.comp_apply, name_widen]

theorem signature?_widen (t : SymbolTable) (name other : String) (linkage : Linkage) :
    (t.widen name linkage).signature? other = t.signature? other :=
  congrArg (List.lookup other) (signatures_merge t name linkage)

theorem declareFunction_eq_widen {known : List Ir.Ty} (hcell : name ∉ t.cellNames)
    (h : t.signature? name = some known) : t.declareFunction name linkage params =
      (if known = params then .ok (t.functionId name) else .error (.incompatibleSignature name),
        t.widen name linkage) := by
  rw [← map_params_function?, Option.map_eq_some_iff] at h
  obtain ⟨f, hf, rfl⟩ := h
  unfold declareFunction
  rw [if_neg fun hmem => hcell (hasCell_iff.1 hmem), hf]
  rfl

/-- The table with one more function, which has the next id. -/
def addFunction (t : SymbolTable) (f : FunctionSymbol) : SymbolTable :=
  { t with functions := t.functions ++ [f] }

theorem forall_name_ne (h : t.signature? name = none) : ∀ f ∈ t.functions, f.name ≠ name := by
  simpa [function?] using function?_eq_none_iff.2 h

theorem signature?_addFunction_of_ne {f : FunctionSymbol} (h : name ≠ f.name) :
    (t.addFunction f).signature? name = t.signature? name := by
  unfold signature? signatures addFunction
  rw [List.map_append, List.lookup_append, List.map_singleton, List.lookup_cons,
    show (name == f.name) = false by simpa using h]
  exact Option.or_none

theorem signature?_addFunction_self {f : FunctionSymbol} (h : t.signature? f.name = none) :
    (t.addFunction f).signature? f.name = some f.params := by
  unfold signature? signatures at h ⊢
  unfold addFunction
  rw [List.map_append, List.lookup_append, h, List.map_singleton, List.lookup_cons_self]
  rfl

theorem functionId_addFunction_self {f : FunctionSymbol} (h : t.signature? f.name = none) :
    (t.addFunction f).functionId f.name = t.functions.length := by
  have hnone : t.functions.findIdx (fun g => g.name == f.name) = t.functions.length := by
    simpa [List.findIdx_eq_length] using forall_name_ne h
  unfold functionId addFunction
  rw [List.findIdx_append, hnone, if_neg (Nat.lt_irrefl _), List.findIdx_cons]
  simp

theorem functionId_addFunction (f : FunctionSymbol) (h : (t.signature? name).isSome) :
    (t.addFunction f).functionId name = t.functionId name := by
  have hlt : t.functions.findIdx (fun g => g.name == name) < t.functions.length := by
    rw [← hasFunction_iff, hasFunction, List.any_eq_true] at h
    exact List.findIdx_lt_length_of_exists h
  unfold functionId addFunction
  rw [List.findIdx_append, if_pos hlt]

theorem addFunction_ne_self (t : SymbolTable) (f : FunctionSymbol) : t.addFunction f ≠ t := by
  intro h
  have hlength := congrArg (fun t : SymbolTable => t.functions.length) h
  simp [addFunction] at hlength

theorem widen_addFunction (t : SymbolTable) (f : FunctionSymbol) (name : String)
    (linkage : Linkage) : (t.addFunction f).widen name linkage =
      (t.widen name linkage).addFunction
        (if f.name = name then { f with linkage := f.linkage.merge linkage } else f) := by
  unfold widen addFunction
  simp only [List.map_append, List.map_singleton]

theorem widen_of_unknown (h : t.signature? name = none) : t.widen name linkage = t := by
  have hkept : (t.functions.map fun f =>
      if f.name = name then { f with linkage := f.linkage.merge linkage } else f) =
        t.functions.map fun f => f := by
    apply List.map_congr_left
    intro f hf
    rw [if_neg (forall_name_ne h f hf)]
  unfold widen
  rw [hkept, List.map_id']

/-- Declaring a function that has just been declared, or refused, changes nothing more. -/
theorem declareFunction_again (t : SymbolTable) (name : String) (linkage : Linkage)
    (params : List Ir.Ty) :
    (t.declareFunction name linkage params).2.declareFunction name linkage params =
      t.declareFunction name linkage params := by
  by_cases hcell : name ∈ t.cellNames
  · rw [declareFunction_of_cell hcell, declareFunction_of_cell hcell]
  · cases hsignature : t.signature? name with
    | none =>
        rw [declareFunction_of_unknown hcell hsignature]
        change (t.addFunction ⟨name, linkage, params⟩).declareFunction name linkage params =
          (.ok t.functions.length, t.addFunction ⟨name, linkage, params⟩)
        rw [declareFunction_eq_widen (show name ∉ (t.addFunction _).cellNames from hcell)
            (signature?_addFunction_self hsignature),
          functionId_addFunction_self hsignature, widen_addFunction, widen_of_unknown hsignature]
        simp only [if_true, Linkage.merge_self]
    | some known =>
        have hcell' : name ∉ (t.widen name linkage).cellNames := hcell
        rw [declareFunction_eq_widen hcell hsignature, declareFunction_eq_widen hcell'
          ((signature?_widen t name name linkage).trans hsignature), functionId_widen, widen_widen]

/-- A declaration of a function is settled when it has no effect. -/
theorem declareFunction_settled_iff : t.declareFunction name linkage params = (.ok id, t) ↔
    name ∉ t.cellNames ∧ t.signature? name = some params ∧ t.functionId name = id ∧
      t.widen name linkage = t := by
  by_cases hcell : name ∈ t.cellNames
  · rw [declareFunction_of_cell hcell]
    simp [hcell]
  · cases hsignature : t.signature? name with
    | none =>
        rw [declareFunction_of_unknown hcell hsignature]
        have hgrown := t.addFunction_ne_self ⟨name, linkage, params⟩
        unfold addFunction at hgrown
        simp [hgrown]
    | some known =>
        rw [declareFunction_eq_widen hcell hsignature]
        by_cases hsame : known = params <;> simp [hcell, hsame]

/-! ## Cells -/

theorem cell?_isSome_iff : (t.cell? name).isSome ↔ name ∈ t.cellNames := by
  simp [cell?, cellNames]

/-- A cell that is known is imported as it is. -/
theorem importCell_of_known {c : CellSymbol} (hfunction : t.signature? name = none)
    (h : t.cell? name = some c) : t.declareCell name .imported = (.ok c.linkage, t) := by
  have hkept : (t.cells.map fun c => if c.name = name then
      { c with linkage := c.linkage.merge .imported } else c) = t.cells.map fun c => c := by
    apply List.map_congr_left
    intro c _
    rw [Linkage.merge_imported, ite_self]
  unfold declareCell
  rw [if_neg (by simp [hasFunction_iff, hfunction]), h]
  dsimp only
  rw [hkept, List.map_id', Linkage.merge_imported]

theorem importCell_of_unknown (hfunction : t.signature? name = none)
    (h : t.cell? name = none) : t.declareCell name .imported =
      (.ok .imported, { t with cells := t.cells ++ [⟨name, .imported⟩] }) := by
  unfold declareCell
  rw [if_neg (by simp [hasFunction_iff, hfunction]), h]

/-- Importing a cell that has just been imported, or refused, changes nothing more. -/
theorem importCell_again (t : SymbolTable) (name : String) :
    (t.declareCell name .imported).2.declareCell name .imported =
      t.declareCell name .imported := by
  cases hfunction : t.signature? name with
  | some params =>
      have hknown : (t.signature? name).isSome := by rw [hfunction]; rfl
      rw [declareCell_of_function hknown, declareCell_of_function hknown]
  | none =>
      cases hcell : t.cell? name with
      | some c => rw [importCell_of_known hfunction hcell, importCell_of_known hfunction hcell]
      | none =>
          rw [importCell_of_unknown hfunction hcell]
          refine importCell_of_known (c := ⟨name, .imported⟩) hfunction ?_
          unfold cell? at hcell ⊢
          rw [List.find?_append, hcell]
          simp

/-- An import is settled when it has no effect. -/
theorem importCell_settled_iff : t.declareCell name .imported = (.ok known, t) ↔
    t.signature? name = none ∧ (t.cell? name).map CellSymbol.linkage = some known := by
  cases hfunction : t.signature? name with
  | some params =>
      rw [declareCell_of_function (by rw [hfunction]; rfl)]
      simp
  | none =>
      cases hcell : t.cell? name with
      | some c => simp [importCell_of_known hfunction hcell]
      | none =>
          rw [importCell_of_unknown hfunction hcell]
          have hgrown : ({ t with cells := t.cells ++ [⟨name, .imported⟩] } : SymbolTable) ≠ t := by
            intro h
            simpa using congrArg (fun t : SymbolTable => t.cells.length) h
          simp [hgrown]

/-! ## Settled declarations -/

/-- What is settled in the first table is settled in the second, and to the same answers. -/
structure Keeps (t s : SymbolTable) : Prop where
  functions : ∀ {name linkage params id}, t.declareFunction name linkage params = (.ok id, t) →
    s.declareFunction name linkage params = (.ok id, s)
  imports : ∀ {name known}, t.declareCell name .imported = (.ok known, t) →
    s.declareCell name .imported = (.ok known, s)

theorem Keeps.refl (t : SymbolTable) : t.Keeps t := ⟨id, id⟩

theorem Keeps.trans (h : t.Keeps s) (h' : s.Keeps u) : t.Keeps u :=
  ⟨fun hf => h'.functions (h.functions hf), fun hc => h'.imports (h.imports hc)⟩

theorem keeps_widen (t : SymbolTable) (other : String) (linkage : Linkage) :
    t.Keeps (t.widen other linkage) := by
  refine ⟨fun {name linkage' params id} h => ?_, fun {name known} h => ?_⟩
  · obtain ⟨hcell, hsignature, hid, hwide⟩ := declareFunction_settled_iff.1 h
    refine declareFunction_settled_iff.2 ⟨hcell, ?_, ?_, ?_⟩
    · rw [signature?_widen, hsignature]
    · rw [functionId_widen, hid]
    · rw [widen_comm, hwide]
  · obtain ⟨hfunction, hcell⟩ := importCell_settled_iff.1 h
    exact importCell_settled_iff.2 ⟨(signature?_widen t other name linkage).trans hfunction, hcell⟩

theorem keeps_addFunction {f : FunctionSymbol} (hcell : f.name ∉ t.cellNames)
    (hunknown : t.signature? f.name = none) : t.Keeps (t.addFunction f) := by
  refine ⟨fun {name linkage params id} h => ?_, fun {name known} h => ?_⟩
  · obtain ⟨hcell', hsignature, hid, hwide⟩ := declareFunction_settled_iff.1 h
    have hne : name ≠ f.name := by
      rintro rfl
      rw [hunknown] at hsignature
      contradiction
    refine declareFunction_settled_iff.2 ⟨hcell', ?_, ?_, ?_⟩
    · rw [signature?_addFunction_of_ne hne, hsignature]
    · rw [functionId_addFunction f (by rw [hsignature]; rfl), hid]
    · rw [widen_addFunction, if_neg hne.symm, hwide]
  · obtain ⟨hfunction, hlinkage⟩ := importCell_settled_iff.1 h
    have hne : name ≠ f.name := by
      rintro rfl
      rw [← cell?_isSome_iff, ← Option.isSome_map (f := CellSymbol.linkage), hlinkage] at hcell
      exact hcell rfl
    exact importCell_settled_iff.2 ⟨(signature?_addFunction_of_ne hne).trans hfunction, hlinkage⟩

theorem keeps_declareFunction (t : SymbolTable) (name : String) (linkage : Linkage)
    (params : List Ir.Ty) : t.Keeps (t.declareFunction name linkage params).2 := by
  by_cases hcell : name ∈ t.cellNames
  · rw [declareFunction_of_cell hcell]
    exact .refl t
  · cases hsignature : t.signature? name with
    | none =>
        rw [declareFunction_of_unknown hcell hsignature]
        exact keeps_addFunction hcell hsignature
    | some known =>
        rw [declareFunction_eq_widen hcell hsignature]
        exact keeps_widen t name linkage

theorem keeps_importCell (t : SymbolTable) (other : String) :
    t.Keeps (t.declareCell other .imported).2 := by
  cases hfunction : t.signature? other with
  | some params =>
      rw [declareCell_of_function (by rw [hfunction]; rfl)]
      exact .refl t
  | none =>
      cases hother : t.cell? other with
      | some c =>
          rw [importCell_of_known hfunction hother]
          exact .refl t
      | none =>
          rw [importCell_of_unknown hfunction hother]
          refine ⟨fun {name linkage params id} h => ?_, fun {name known} h => ?_⟩
          · obtain ⟨hcell, hsignature, hid, hwide⟩ := declareFunction_settled_iff.1 h
            refine declareFunction_settled_iff.2 ⟨?_, hsignature, hid, ?_⟩
            · have hne : name ≠ other := by
                rintro rfl
                rw [hfunction] at hsignature
                contradiction
              simpa [cellNames, hne] using hcell
            · exact congrArg (fun s : SymbolTable =>
                { s with cells := t.cells ++ [(⟨other, .imported⟩ : CellSymbol)] }) hwide
          · obtain ⟨hunknown, hlinkage⟩ := importCell_settled_iff.1 h
            refine importCell_settled_iff.2 ⟨hunknown, ?_⟩
            obtain ⟨c, hc, rfl⟩ := Option.map_eq_some_iff.1 hlinkage
            unfold cell? at hc ⊢
            rw [List.find?_append, hc]
            rfl

end SymbolTable

end Dataflow
