import Dataflow.Backend
import Mathlib.Data.List.Nodup

/-!
# Defining the functions of a unit

A unit is compiled only if no function of it has been defined before, so the ids of its
functions are distinct and each of them leads to its function.
-/

namespace Dataflow

open Ir

theorem Ir.find?_id {functions : List Function} (h : (functions.map Function.id).Nodup)
    {f : Function} (hf : f ∈ functions) : (functions.find? fun k => k.id == f.id) = some f := by
  induction functions with
  | nil => contradiction
  | cons first functions ih =>
      rw [List.map_cons, List.nodup_cons] at h
      rcases List.mem_cons.1 hf with rfl | hf
      · rw [List.find?_cons_of_pos (by simp)]
      · have hne : first.id ≠ f.id := fun heq => h.1 (heq ▸ List.mem_map_of_mem hf)
        rw [List.find?_cons_of_neg (by simpa using hne)]
        exact ih h.2 hf

namespace Backend

theorem defineFunctions_eq_ok {t t' : SymbolTable} {functions : List Function}
    (h : defineFunctions t functions = (.ok (), t')) :
    (functions.map Function.id).Nodup ∧ (∀ f ∈ functions, f.id ∉ t.definedFunctions) ∧
      t' = { t with
        definedFunctions := (functions.map Function.id).reverse ++ t.definedFunctions } := by
  induction functions generalizing t with
  | nil =>
      cases h
      exact ⟨List.nodup_nil, by simp, rfl⟩
  | cons f functions ih =>
      unfold defineFunctions SymbolTable.defineFunction at h
      by_cases hdefined : t.definedFunctions.contains f.id = true
      · rw [if_pos hdefined] at h
        cases h
      · rw [if_neg hdefined] at h
        obtain ⟨hnodup, hnew, ht⟩ := ih h
        rw [List.contains_iff_mem] at hdefined
        refine ⟨?_, ?_, ?_⟩
        · rw [List.map_cons, List.nodup_cons]
          refine ⟨?_, hnodup⟩
          intro hmem
          obtain ⟨k, hk, hid⟩ := List.mem_map.1 hmem
          exact hnew k hk (hid ▸ List.mem_cons_self)
        · intro k hk
          rcases List.mem_cons.1 hk with rfl | hk
          · exact hdefined
          · exact fun hmem => hnew k hk (List.mem_cons_of_mem _ hmem)
        · rw [ht]
          simp

/-- Functions that cannot be defined are refused by the table. -/
theorem error_of_defineFunctions {t : SymbolTable} {functions : List Function} {err : UnitError}
    (h : (defineFunctions t functions).1 = .error err) : ∃ s, err = .symbol s := by
  induction functions generalizing t with
  | nil => contradiction
  | cons f functions ih =>
      unfold defineFunctions at h
      split at h
      · rename_i s _
        cases h
        exact ⟨s, rfl⟩
      · exact ih h

theorem compileUnit_eq_ok {b b' : Backend} {unit : GeneratedUnit}
    (h : b.compileUnit unit = (.ok (), b')) :
    (unit.functions.map Function.id).Nodup ∧
      (b.verify = true → ∀ f ∈ unit.functions, f.wellTyped = true) ∧
      b' = { b with table := { b.table with
        definedFunctions :=
          (unit.functions.map Function.id).reverse ++ b.table.definedFunctions } } := by
  unfold compileUnit at h
  split at h
  · cases h
  · rename_i hchecked
    cases hdefine : defineFunctions b.table unit.functions with
    | mk result table =>
        simp only [hdefine] at h
        cases h
        obtain ⟨hnodup, -, rfl⟩ := defineFunctions_eq_ok hdefine
        refine ⟨hnodup, ?_, rfl⟩
        intro hverify f hf
        have hf' := List.find?_eq_none.1 hchecked f hf
        rw [hverify] at hf'
        simpa using hf'

theorem build_eq_ok {b b' : Backend} {g : Graph} {ix : Index} {storage : StorageLayout}
    {r : UnitRequest} {unit : GeneratedUnit} (h : b.build g ix storage r = (.ok unit, b')) :
    ∃ b₁, b.generate g ix storage r = (.ok unit, b₁) ∧ b₁.compileUnit unit = (.ok (), b') := by
  unfold build at h
  split at h
  · cases h
  · rename_i u b₁ hgenerate
    split at h
    · cases h
    · rename_i b₂ hcompile
      cases h
      exact ⟨b₁, hgenerate, hcompile⟩

end Backend

end Dataflow
