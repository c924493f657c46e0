import Dataflow.Proofs.Unit.Declared

/-!
# Backends only grow

Whatever is asked of a backend, its table keeps all that it knew. A unit that has been built
is installed for good: its functions stay declared and defined in the backend.
-/

namespace Dataflow

open Ir

/-- The functions are known to the table and defined in it. -/
def InstalledIn (functions : List Function) (t : SymbolTable) : Prop :=
  ∀ f ∈ functions, f.DeclaredIn t ∧ f.id ∈ t.definedFunctions

theorem InstalledIn.mono {functions : List Function} {t t' : SymbolTable}
    (h : InstalledIn functions t) (hext : t.Extends t') : InstalledIn functions t' :=
  fun f hf => ⟨(h f hf).1.mono hext, hext.definedFunctions (h f hf).2⟩

namespace Backend

variable {b b' : Backend} {g : Graph} {ix : Index} {storage : StorageLayout} {r : UnitRequest}
  {unit : GeneratedUnit}

theorem table_generate (b : Backend) (g : Graph) (ix : Index) (storage : StorageLayout)
    (r : UnitRequest) :
    (b.generate g ix storage r).2.table =
      ((generateUnit g ix storage r (b.sequence + 1)).run b.table).2 := by
  unfold generate
  simp only
  split
  · rename_i hrun
    rw [hrun]
  · rename_i hrun
    rw [hrun]

theorem outcome_generate (b : Backend) (g : Graph) (ix : Index) (storage : StorageLayout)
    (r : UnitRequest) :
    (b.generate g ix storage r).1 =
      ((generateUnit g ix storage r (b.sequence + 1)).run b.table).1 := by
  unfold generate
  simp only
  split
  · rename_i hrun
    rw [hrun]
  · rename_i hrun
    rw [hrun]

theorem extends_generate (b : Backend) (g : Graph) (ix : Index) (storage : StorageLayout)
    (r : UnitRequest) : b.table.Extends (b.generate g ix storage r).2.table := by
  rw [table_generate]
  exact (declares_generateUnit g ix storage r (b.sequence + 1) b.table).extends

/-- Defining functions declares nothing, whether it succeeds or not. -/
theorem defineFunctions_frame (t : SymbolTable) (functions : List Function) :
    ∃ defined, (defineFunctions t functions).2 = { t with definedFunctions := defined } ∧
      t.definedFunctions ⊆ defined := by
  induction functions generalizing t with
  | nil => exact ⟨t.definedFunctions, rfl, List.Subset.refl _⟩
  | cons f functions ih =>
      unfold defineFunctions SymbolTable.defineFunction
      by_cases hdefined : t.definedFunctions.contains f.id = true
      · rw [if_pos hdefined]
        exact ⟨t.definedFunctions, rfl, List.Subset.refl _⟩
      · rw [if_neg hdefined]
        obtain ⟨defined, htable, hsubset⟩ :=
          ih { t with definedFunctions := f.id :: t.definedFunctions }
        exact ⟨defined, htable, List.Subset.trans (List.subset_cons_self _ _) hsubset⟩

theorem compileUnit_frame (b : Backend) (unit : GeneratedUnit) :
    ∃ defined, (b.compileUnit unit).2 =
        { b with table := { b.table with definedFunctions := defined } } ∧
      b.table.definedFunctions ⊆ defined := by
  unfold compileUnit
  split
  · exact ⟨b.table.definedFunctions, rfl, List.Subset.refl _⟩
  · obtain ⟨defined, htable, hsubset⟩ := defineFunctions_frame b.table unit.functions
    refine ⟨defined, ?_, hsubset⟩
    rw [← htable]

/-- What is defined afterwards was so before or belongs to the functions at hand. -/
theorem mem_definedFunctions_defineFunctions {t : SymbolTable} {functions : List Function}
    {id : Nat} (h : id ∈ (defineFunctions t functions).2.definedFunctions) :
    id ∈ t.definedFunctions ∨ ∃ f ∈ functions, f.id = id := by
  induction functions generalizing t with
  | nil => exact .inl h
  | cons f functions ih =>
      unfold defineFunctions SymbolTable.defineFunction at h
      by_cases hdefined : t.definedFunctions.contains f.id = true
      · rw [if_pos hdefined] at h
        exact .inl h
      · rw [if_neg hdefined] at h
        rcases ih h with hold | ⟨k, hk, hid⟩
        · rcases List.mem_cons.1 hold with rfl | hold
          · exact .inr ⟨f, List.mem_cons_self, rfl⟩
          · exact .inl hold
        · exact .inr ⟨k, List.mem_cons_of_mem _ hk, hid⟩

/-- An attempt to compile a unit defines no functions but those of the unit. -/
theorem mem_definedFunctions_compileUnit {b : Backend} {unit : GeneratedUnit} {id : Nat}
    (h : id ∈ (b.compileUnit unit).2.table.definedFunctions) :
    id ∈ b.table.definedFunctions ∨ ∃ f ∈ unit.functions, f.id = id := by
  unfold compileUnit at h
  split at h
  · exact .inl h
  · exact mem_definedFunctions_defineFunctions h

theorem extends_compileUnit (b : Backend) (unit : GeneratedUnit) :
    b.table.Extends (b.compileUnit unit).2.table := by
  obtain ⟨defined, hframe, hsubset⟩ := compileUnit_frame b unit
  rw [hframe]
  exact ⟨List.prefix_rfl, List.prefix_rfl, hsubset⟩

theorem extends_build (b : Backend) (g : Graph) (ix : Index) (storage : StorageLayout)
    (r : UnitRequest) : b.table.Extends (b.build g ix storage r).2.table := by
  have hgenerate := extends_generate b g ix storage r
  unfold build
  split
  · rename_i hrun
    rw [hrun] at hgenerate
    exact hgenerate
  · rename_i unit b₁ hrun
    rw [hrun] at hgenerate
    have hcompile := hgenerate.trans (extends_compileUnit b₁ unit)
    split
    · rename_i hdefine
      rw [hdefine] at hcompile
      exact hcompile
    · rename_i hdefine
      rw [hdefine] at hcompile
      exact hcompile

/-- A unit is built for the present version and the request, is installed in the backend, and
refers to no cells but those of the layout. -/
theorem unit_of_build (h : b.build g ix storage r = (.ok unit, b')) :
    unit.version = g.version ∧ unit.request = r ∧ InstalledIn unit.functions b'.table ∧
      ∀ f ∈ unit.functions, ∀ global ∈ f.globals,
        ∃ port cell, storage.cell? port = some cell ∧ global.symbol = cell.symbol := by
  obtain ⟨b₁, hgenerate, hcompile⟩ := build_eq_ok h
  obtain ⟨hrun, -⟩ := generate_eq_ok hgenerate
  have hdeclared := declaredIn_of_generateUnit hrun
  have hextends := extends_compileUnit b₁ unit
  rw [hcompile] at hextends
  obtain ⟨plan, nodes, entry, t₁, hplan, -, -, hunit⟩ := generateUnit_eq_ok hrun
  refine ⟨?_, ?_, ?_, fun f hf => (hdeclared f hf).2⟩
  · rw [hunit]
    exact (UnitPlan.steps_of_make hplan).1
  · rw [hunit]
  · intro f hf
    refine ⟨(hdeclared f hf).1.mono hextends, ?_⟩
    obtain ⟨-, -, hb'⟩ := compileUnit_eq_ok hcompile
    rw [hb']
    apply List.mem_append_left
    rw [List.mem_reverse]
    exact List.mem_map_of_mem hf

/-! ## Cells -/

/-- The first contents of the cells of a layout. -/
def initialBank (cells : List StorageCell) : Bank :=
  cells.map fun cell => (cell.symbol, cell.initial.toBytes)

theorem bank_of_defineCells {t t' : SymbolTable} {cells : List StorageCell} {bank : Bank}
    (h : defineCells t cells = (.ok bank, t')) : bank = initialBank cells := by
  induction cells generalizing t bank with
  | nil =>
      cases h
      rfl
  | cons cell cells ih =>
      unfold defineCells at h
      split at h
      · cases h
      · split at h
        · cases h
        · split at h
          · cases h
          · rename_i rest _ hrest
            cases h
            rw [ih hrest]
            rfl

theorem bank_of_compileGlobals {layout : StorageLayout} {bank : Bank}
    (h : b.compileGlobals layout = (.ok bank, b')) : bank = initialBank layout.cells := by
  unfold compileGlobals at h
  cases hdefine : defineCells b.table layout.cells with
  | mk result table =>
      simp only [hdefine] at h
      cases h
      exact bank_of_defineCells hdefine

theorem lookup_initialBank {cells : List StorageCell}
    (hnodup : (cells.map StorageCell.symbol).Nodup) {cell : StorageCell} (hcell : cell ∈ cells) :
    (initialBank cells).lookup cell.symbol = some cell.initial.toBytes := by
  unfold initialBank
  induction cells with
  | nil => contradiction
  | cons first cells ih =>
      rw [List.map_cons, List.nodup_cons] at hnodup
      rw [List.map_cons]
      rcases List.mem_cons.1 hcell with rfl | hcell
      · exact List.lookup_cons_self
      · have hne : (cell.symbol == first.symbol) = false := by
          simp only [beq_eq_false_iff_ne]
          intro heq
          exact hnodup.1 (heq ▸ List.mem_map_of_mem hcell)
        rw [List.lookup_cons, hne]
        exact ih hnodup.2 hcell

end Backend

end Dataflow
