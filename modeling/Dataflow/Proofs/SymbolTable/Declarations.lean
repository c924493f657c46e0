import Dataflow.SymbolTable
import Mathlib.Data.List.Basic

/-!
# What declarations do to a symbol table

A table is seen through the signatures of its functions, by id, and the names of its cells.
A function can be declared when no cell has its name and it is unknown or known with the same
parameters. Declarations only ever append to both lists.
-/

namespace Dataflow

namespace SymbolTable

/-- The name and the parameters of each function, by id. -/
def signatures (t : SymbolTable) : List (String × List Ir.Ty) :=
  t.functions.map fun f => (f.name, f.params)

/-- The parameters with which a function is known. -/
def signature? (t : SymbolTable) (name : String) : Option (List Ir.Ty) :=
  t.signatures.lookup name

def cellNames (t : SymbolTable) : List String := t.cells.map CellSymbol.name

/-- A function can be declared under this name with these parameters. -/
def Admits (t : SymbolTable) (name : String) (params : List Ir.Ty) : Prop :=
  name ∉ t.cellNames ∧ ∀ known, t.signature? name = some known → known = params

variable {t t' : SymbolTable} {name other : String} {linkage : Linkage} {params : List Ir.Ty}

theorem hasCell_iff : t.hasCell name = true ↔ name ∈ t.cellNames := by
  simp [hasCell, cellNames]

theorem map_params_function? (t : SymbolTable) (name : String) :
    (t.function? name).map FunctionSymbol.params = t.signature? name := by
  unfold function? signature? signatures
  induction t.functions with
  | nil => rfl
  | cons f functions ih =>
      rw [List.map_cons]
      by_cases hname : f.name = name
      · rw [List.find?_cons_of_pos (by simp [hname]), ← hname, List.lookup_cons_self]
        rfl
      · have hne : (name == f.name) = false := by simpa using fun h => hname h.symm
        rw [List.find?_cons_of_neg (by simp [hname]), List.lookup_cons, hne, ih]

theorem function?_eq_none_iff : t.function? name = none ↔ t.signature? name = none := by
  rw [← map_params_function?, Option.map_eq_none_iff]

theorem hasFunction_iff : t.hasFunction name = true ↔ (t.signature? name).isSome := by
  rw [← map_params_function?, Option.isSome_map, function?, List.find?_isSome, hasFunction,
    List.any_eq_true]

/-- The id of a known function is the position of its signature. -/
theorem getElem?_functionId {known : FunctionSymbol} (h : t.function? name = some known) :
    t.signatures[t.functionId name]? = some (name, known.params) := by
  unfold function? at h
  unfold functionId signatures
  generalize t.functions = functions at h ⊢
  induction functions with
  | nil => contradiction
  | cons f functions ih =>
      rw [List.findIdx_cons]
      by_cases hname : f.name = name
      · rw [List.find?_cons_of_pos (by simp [hname])] at h
        cases h
        simp [hname]
      · have hne : (f.name == name) = false := by simpa using hname
        rw [List.find?_cons_of_neg (by simp [hname])] at h
        rw [hne]
        exact ih h

/-! ## Declaring one symbol -/

theorem declareFunction_of_cell (h : name ∈ t.cellNames) :
    t.declareFunction name linkage params = (.error (.incompatibleDeclaration name), t) := by
  unfold declareFunction
  rw [if_pos (hasCell_iff.2 h)]

theorem signatures_merge (t : SymbolTable) (name : String) (linkage : Linkage) :
    (t.functions.map fun f => if f.name = name then
      { f with linkage := f.linkage.merge linkage } else f).map (fun f => (f.name, f.params)) =
      t.signatures := by
  rw [List.map_map]
  apply List.map_congr_left
  intro f _
  by_cases hname : f.name = name <;> simp [hname]

theorem declareFunction_of_known (linkage : Linkage) (params : List Ir.Ty) {known : List Ir.Ty}
    (hcell : name ∉ t.cellNames) (h : t.signature? name = some known) :
    ∃ functions, t.declareFunction name linkage params =
        (if known = params then .ok (t.functionId name)
          else .error (.incompatibleSignature name), { t with functions }) ∧
      functions.map (fun f => (f.name, f.params)) = t.signatures ∧
      t.signatures[t.functionId name]? = some (name, known) := by
  rw [← map_params_function?, Option.map_eq_some_iff] at h
  obtain ⟨f, hf, rfl⟩ := h
  unfold declareFunction
  rw [if_neg (fun hc => hcell (hasCell_iff.1 hc)), hf]
  exact ⟨_, rfl, signatures_merge t name linkage, getElem?_functionId hf⟩

theorem declareFunction_of_unknown (hcell : name ∉ t.cellNames) (h : t.signature? name = none) :
    t.declareFunction name linkage params = (.ok t.functions.length,
      { t with functions := t.functions ++ [⟨name, linkage, params⟩] }) := by
  unfold declareFunction
  rw [if_neg (fun hc => hcell (hasCell_iff.1 hc)), function?_eq_none_iff.2 h]

/-- Exactly what a table admits can be declared. -/
theorem declareFunction_ok_iff (linkage : Linkage) :
    (∃ id t', t.declareFunction name linkage params = (.ok id, t')) ↔ t.Admits name params := by
  by_cases hcell : name ∈ t.cellNames
  · rw [declareFunction_of_cell hcell]
    simp [Admits, hcell]
  · cases hknown : t.signature? name with
    | none =>
        rw [declareFunction_of_unknown hcell hknown]
        simp [Admits, hcell, hknown]
    | some known =>
        obtain ⟨functions, hdeclare, -, -⟩ :=
          declareFunction_of_known linkage params hcell hknown
        rw [hdeclare]
        by_cases hsame : known = params <;> simp [Admits, hcell, hknown, hsame]

theorem signature_of_declareFunction {id : Nat}
    (h : t.declareFunction name linkage params = (.ok id, t')) :
    t'.signatures[id]? = some (name, params) := by
  have hadmits := (declareFunction_ok_iff linkage).1 ⟨id, t', h⟩
  cases hknown : t.signature? name with
  | none =>
      rw [declareFunction_of_unknown hadmits.1 hknown] at h
      cases h
      simp [signatures]
  | some known =>
      obtain ⟨functions, hdeclare, hsame, hid⟩ :=
        declareFunction_of_known linkage params hadmits.1 hknown
      rw [hdeclare, if_pos (hadmits.2 known hknown)] at h
      cases h
      rw [hadmits.2 known hknown] at hid
      unfold signatures at hid ⊢
      rw [hsame]
      exact hid

/-- A cell can be declared when no function has its name. -/
theorem declareCell_of_unknown (linkage : Linkage) (h : t.signature? name = none) :
    ∃ known cells, t.declareCell name linkage = (.ok known, { t with cells }) ∧
      cells.map CellSymbol.name =
        if name ∈ t.cellNames then t.cellNames else t.cellNames ++ [name] := by
  have hfunction : ¬ t.hasFunction name = true := by
    rw [hasFunction_iff, h]
    simp
  have hfind : (t.cell? name).isSome ↔ name ∈ t.cellNames := by
    simp [cell?, cellNames]
  unfold declareCell
  rw [if_neg hfunction]
  cases hcell : t.cell? name with
  | none =>
      rw [hcell] at hfind
      have hnew : name ∉ t.cellNames := fun hmem => by simpa using hfind.2 hmem
      refine ⟨linkage, _, rfl, ?_⟩
      rw [if_neg hnew, List.map_append]
      rfl
  | some known =>
      rw [hcell] at hfind
      refine ⟨_, _, rfl, ?_⟩
      rw [if_pos (hfind.1 rfl), List.map_map]
      apply List.map_congr_left
      intro c _
      by_cases hname : c.name = name <;> simp [hname]

theorem declareCell_of_function (h : (t.signature? name).isSome) :
    t.declareCell name linkage = (.error (.incompatibleDeclaration name), t) := by
  unfold declareCell
  rw [if_pos (hasFunction_iff.2 h)]

/-! ## Growing tables -/

/-- All that the first table knows, the second knows at the same place. -/
structure Extends (t t' : SymbolTable) : Prop where
  signatures : t.signatures <+: t'.signatures
  cellNames : t.cellNames <+: t'.cellNames
  definedFunctions : t.definedFunctions ⊆ t'.definedFunctions

/-- No name is that of a function and of a cell. -/
def Apart (t : SymbolTable) : Prop := ∀ name ∈ t.cellNames, t.signature? name = none

/-- The second table has more functions and cells of some kind, and no more definitions. -/
structure Declares (function : String → List Ir.Ty → Prop) (cell : String → Prop)
    (t t' : SymbolTable) : Prop where
  signatures : ∃ added, t'.signatures = t.signatures ++ added ∧ ∀ s ∈ added, function s.1 s.2
  cellNames : ∃ added, t'.cellNames = t.cellNames ++ added ∧ ∀ name ∈ added, cell name
  definedFunctions : t'.definedFunctions = t.definedFunctions
  apart : t.Apart → t'.Apart

theorem Extends.trans {t₁ t₂ t₃ : SymbolTable} (h : t₁.Extends t₂) (h' : t₂.Extends t₃) :
    t₁.Extends t₃ :=
  ⟨h.signatures.trans h'.signatures, h.cellNames.trans h'.cellNames,
    List.Subset.trans h.definedFunctions h'.definedFunctions⟩

theorem Extends.getElem?_signatures (h : t.Extends t') {id : Nat} {s : String × List Ir.Ty}
    (hs : t.signatures[id]? = some s) : t'.signatures[id]? = some s := by
  obtain ⟨rest, hrest⟩ := h.signatures
  have hlt : id < t.signatures.length := (List.getElem?_eq_some_iff.1 hs).1
  rw [← hrest, List.getElem?_append_left hlt]
  exact hs

theorem Extends.signature? (h : t.Extends t') (hs : t.signature? name = some params) :
    t'.signature? name = some params :=
  h.signatures.lookup_eq_some hs

/-- What a table admits, it admitted before. -/
theorem Admits.of_extends (h : t'.Admits name params) (hext : t.Extends t') :
    t.Admits name params :=
  ⟨fun hcell => h.1 (hext.cellNames.subset hcell), fun known hknown =>
    h.2 known (hext.signature? hknown)⟩

section Declares

variable {function function' : String → List Ir.Ty → Prop} {cell cell' : String → Prop}

theorem Declares.refl (t : SymbolTable) : t.Declares function cell t :=
  ⟨⟨[], by simp⟩, ⟨[], by simp⟩, rfl, id⟩

theorem Declares.trans {t₁ t₂ t₃ : SymbolTable} (h : t₁.Declares function cell t₂)
    (h' : t₂.Declares function cell t₃) : t₁.Declares function cell t₃ := by
  obtain ⟨⟨fs, hfs, hfunctions⟩, ⟨cs, hcs, hcells⟩, hdefined, hapart⟩ := h
  obtain ⟨⟨fs', hfs', hfunctions'⟩, ⟨cs', hcs', hcells'⟩, hdefined', hapart'⟩ := h'
  refine ⟨⟨fs ++ fs', by rw [hfs', hfs, List.append_assoc], ?_⟩,
    ⟨cs ++ cs', by rw [hcs', hcs, List.append_assoc], ?_⟩, hdefined'.trans hdefined,
    fun h => hapart' (hapart h)⟩
  · intro s hs
    exact (List.mem_append.1 hs).elim (hfunctions s) (hfunctions' s)
  · intro name hname
    exact (List.mem_append.1 hname).elim (hcells name) (hcells' name)

theorem Declares.mono (h : t.Declares function cell t')
    (hfunction : ∀ name params, function name params → function' name params)
    (hcell : ∀ name, cell name → cell' name) : t.Declares function' cell' t' := by
  obtain ⟨⟨fs, hfs, hfunctions⟩, ⟨cs, hcs, hcells⟩, hdefined, hapart⟩ := h
  exact ⟨⟨fs, hfs, fun s hs => hfunction _ _ (hfunctions s hs)⟩,
    ⟨cs, hcs, fun name hname => hcell _ (hcells name hname)⟩, hdefined, hapart⟩

theorem Declares.extends (h : t.Declares function cell t') : t.Extends t' := by
  obtain ⟨⟨fs, hfs, -⟩, ⟨cs, hcs, -⟩, hdefined, -⟩ := h
  exact ⟨⟨fs, hfs.symm⟩, ⟨cs, hcs.symm⟩, hdefined ▸ List.Subset.refl _⟩

end Declares

theorem declares_declareFunction (t : SymbolTable) (name : String) (linkage : Linkage)
    (params : List Ir.Ty) :
    t.Declares (fun n ps => n = name ∧ ps = params) (fun _ => False)
      (t.declareFunction name linkage params).2 := by
  by_cases hcell : name ∈ t.cellNames
  · rw [declareFunction_of_cell hcell]
    exact .refl t
  · cases hknown : t.signature? name with
    | none =>
        rw [declareFunction_of_unknown hcell hknown]
        have hsignatures : signatures { t with
            functions := t.functions ++ [⟨name, linkage, params⟩] } =
              t.signatures ++ [(name, params)] := by simp [signatures]
        refine ⟨⟨_, hsignatures, by simp⟩, ⟨[], by simp [cellNames]⟩, rfl, ?_⟩
        intro hapart other hother
        have hne : (other == name) = false := by
          simp only [beq_eq_false_iff_ne]
          rintro rfl
          exact hcell hother
        have hold := hapart other hother
        unfold signature? at hold ⊢
        rw [hsignatures, List.lookup_append, hold, List.lookup_cons, hne]
        rfl
    | some known =>
        obtain ⟨functions, hdeclare, hsame, -⟩ :=
          declareFunction_of_known linkage params hcell hknown
        rw [hdeclare]
        refine ⟨⟨[], ?_, by simp⟩, ⟨[], by simp [cellNames]⟩, rfl, ?_⟩
        · rw [List.append_nil]
          exact hsame
        · intro hapart other hother
          have hold := hapart other hother
          unfold signature? signatures at hold ⊢
          rw [hsame]
          exact hold

theorem declares_declareCell (t : SymbolTable) (name : String) (linkage : Linkage) :
    t.Declares (fun _ _ => False) (· = name) (t.declareCell name linkage).2 := by
  cases hknown : t.signature? name with
  | some known =>
      rw [declareCell_of_function (by rw [hknown]; rfl)]
      exact .refl t
  | none =>
      obtain ⟨_, cells, hdeclare, hcells⟩ := declareCell_of_unknown linkage hknown
      have hadded : ∃ added, cells.map CellSymbol.name = t.cellNames ++ added ∧
          ∀ n ∈ added, n = name := by
        by_cases hmem : name ∈ t.cellNames
        · rw [if_pos hmem] at hcells
          exact ⟨[], by rw [List.append_nil]; exact hcells, by simp⟩
        · rw [if_neg hmem] at hcells
          exact ⟨[name], hcells, by simp⟩
      rw [hdeclare]
      refine ⟨⟨[], by simp [signatures]⟩, hadded, rfl, ?_⟩
      obtain ⟨added, heq, hname⟩ := hadded
      intro hapart other hother
      change other ∈ cells.map CellSymbol.name at hother
      rw [heq] at hother
      rcases List.mem_append.1 hother with hold | hnew
      · exact hapart other hold
      · rw [hname other hnew]
        exact hknown

end SymbolTable

end Dataflow
