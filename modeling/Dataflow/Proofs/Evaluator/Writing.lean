import Dataflow.Proofs.Evaluator.SharedCells

/-!
# What operations on cells come to

Writing, setting and synchronising inputs and taking over a graph, each with the evaluator that
it leaves behind. Cells are written in place: the cache, the index and the options stay as they
are, and of the graph at most authored values change, unless another version is taken over.
-/

namespace Dataflow

open Ir

namespace Evaluator

variable {e e' : Evaluator} {globals : CompiledGlobals} {port : PortRef} {value : Value}

theorem writeCell_eq_ok (h : e.writeCell globals port value = .ok e') :
    ∃ cell, globals.layout.cell? port = some cell ∧ value.dataType = cell.dataType ∧
      e' = e.putCell globals.bank cell.symbol value := by
  unfold writeCell at h
  split at h
  · contradiction
  · rename_i cell hcell
    split at h
    · rename_i htype
      cases h
      exact ⟨cell, hcell, htype, rfl⟩
    · contradiction

/-- A value is refused, or it goes to the cell of its input. -/
theorem writeInput_cases (e : Evaluator) (port : PortRef) (value : Value) :
    (∃ err, e.writeInput port value = (.error err, e)) ∨
      ∃ globals cell, e.currentGlobals = .ok globals ∧ globals.layout.cell? port = some cell ∧
        value.dataType = cell.dataType ∧
        e.writeInput port value = (.ok (), e.putCell globals.bank cell.symbol value) := by
  unfold writeInput
  split
  · exact .inl ⟨_, rfl⟩
  · rename_i globals hglobals
    split
    · exact .inl ⟨_, rfl⟩
    · rename_i e' hwrite
      obtain ⟨cell, hcell, htype, rfl⟩ := writeCell_eq_ok hwrite
      exact .inr ⟨globals, cell, hglobals, hcell, htype, rfl⟩

theorem setInput_of_refused {err : UnitError} (h : e.writeInput port value = (.error err, e)) :
    e.setInput port value = (.error err, e) := by
  unfold setInput
  rw [h]

/-- Once the cell is written, the authored value follows where the graph takes it. -/
theorem setInput_of_written (h : e.writeInput port value = (.ok (), e')) {g : Graph}
    (hset : e'.graph.setInputValue port value = .ok g) :
    e.setInput port value = (.ok (), { e' with graph := g }) := by
  unfold setInput
  simp only [h, hset]

theorem setInput_frame (e : Evaluator) (port : PortRef) (value : Value) :
    ∃ graph banks, (e.setInput port value).2 = { e with graph, banks } := by
  rcases writeInput_cases e port value with ⟨err, hwrite⟩ | ⟨globals, cell, -, -, -, hwrite⟩
  · rw [setInput_of_refused hwrite]
    exact ⟨e.graph, e.banks, rfl⟩
  · unfold setInput
    simp only [hwrite]
    split
    · exact ⟨e.graph, _, rfl⟩
    · exact ⟨_, _, rfl⟩

/-! ## Synchronising -/

theorem syncCells_frame (globals : CompiledGlobals) (g : Graph) (written : Nat)
    (cells : List StorageCell) (e : Evaluator) :
    ∃ banks, (syncCells globals g written cells e).2 = { e with banks } := by
  induction cells generalizing e written with
  | nil => exact ⟨e.banks, rfl⟩
  | cons cell cells ih =>
      unfold syncCells
      split
      · exact ⟨e.banks, rfl⟩
      · split
        · exact ih written e
        · split
          · exact ⟨e.banks, rfl⟩
          · rename_i hwrite
            obtain ⟨_, -, -, rfl⟩ := writeCell_eq_ok hwrite
            exact ih _ _

theorem syncFrom_frame (e : Evaluator) (globals : CompiledGlobals) (g : Graph) :
    ∃ banks, (e.syncFrom globals g).2 = { e with banks } := by
  unfold syncFrom
  split
  · exact syncCells_frame _ _ _ _ _
  · exact ⟨e.banks, rfl⟩

theorem syncInputs_frame (e : Evaluator) : ∃ banks, e.syncInputs.2 = { e with banks } := by
  unfold syncInputs
  split
  · exact ⟨e.banks, rfl⟩
  · exact syncFrom_frame _ _ _

/-! ## Taking over a graph -/

theorem replaceGraph_of_ne {g : Graph} (h : g.version ≠ e.version) :
    e.replaceGraph g = (.ok (), { (e.invalidate e.version).2 with
      graph := g.remember, stale := true }) :=
  if_pos h

theorem replaceGraph_of_uninstalled {g : Graph} (h : g.version = e.version)
    (hnone : e.cache.globals = none) :
    e.replaceGraph g = (.ok (), { e with graph := g.remember }) := by
  have hfound : e.cache.globals? e.version = none := by
    unfold Cache.globals?
    rw [hnone]
    rfl
  have hversion : ({ e with graph := g.remember } : Evaluator).version = e.version := h
  unfold replaceGraph
  simp only [hversion, hfound, ne_eq, not_true_eq_false, if_false]

/-- With the same version the compiled cells are given the new authored values. -/
theorem replaceGraph_of_installed (he : e.Coherent) {g : Graph} (h : g.version = e.version)
    (hglobals : e.cache.globals = some globals) {result : Except UnitError Nat}
    (hsync : { e with graph := g.remember }.syncFrom globals g.remember = (result, e')) :
    e.replaceGraph g = (result.map fun _ => (), e') := by
  have hfound : e.cache.globals? e.version = some globals := by
    rw [globals?_version he]
    exact hglobals
  have hversion : ({ e with graph := g.remember } : Evaluator).version = e.version := h
  unfold replaceGraph
  simp only [hversion, hfound, hsync, ne_eq, not_true_eq_false, if_false]

theorem replaceGraph_frame_of_eq (he : e.Coherent) {g : Graph} (h : g.version = e.version) :
    ∃ banks, (e.replaceGraph g).2 = { e with graph := g.remember, banks } := by
  cases hglobals : e.cache.globals with
  | none =>
      rw [replaceGraph_of_uninstalled h hglobals]
      exact ⟨e.banks, rfl⟩
  | some globals =>
      rw [replaceGraph_of_installed he h hglobals rfl]
      exact syncFrom_frame _ globals _

end Evaluator

end Dataflow
