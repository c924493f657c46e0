import Dataflow.Proofs.Evaluator.Contents
import Dataflow.Proofs.Evaluator.HeldUnits

/-!
# Failed operations leave no trace

An operation on one input, on all cells, on one unit or on one request that fails has changed
neither the graph nor the contents of a cell nor the units in the cache, so requests that were
cached are evaluated as before. At most cells have been compiled where there were none, and a
backend has grown. Setting an input is all or nothing: `Evaluator.error_unchanged`.
-/

namespace Dataflow

open Ir

/-- The error of an outcome. -/
def errorOf? {α : Type} : Except UnitError α → Option UnitError
  | .error err => some err
  | .ok _ => none

theorem errorOf?_eq_some {α : Type} {outcome : Except UnitError α} {err : UnitError}
    (h : errorOf? outcome = some err) : outcome = .error err := by
  cases outcome with
  | error found => exact congrArg Except.error (Option.some.inj h)
  | ok _ => contradiction

namespace Evaluator

variable {e e' : Evaluator} {graphs : List Graph} {port : PortRef} {value : Value}
  {r : UnitRequest} {err : UnitError} {globals : CompiledGlobals}

/-- The error that an operation returns. -/
def error? (e : Evaluator) : Command → Option UnitError
  | .replaceGraph g => errorOf? (e.replaceGraph g).1
  | .markStale => none
  | .invalidate _ => none
  | .index => none
  | .ensureGlobals => errorOf? e.ensureGlobals.1
  | .compile r => errorOf? (e.compile r).1
  | .code r => errorOf? (e.code r).1
  | .writeInput port value => errorOf? (e.writeInput port value).1
  | .setInput port value => errorOf? (e.setInput port value).1
  | .readInput port => errorOf? (e.readInput port)
  | .syncInputs => errorOf? e.syncInputs.1
  | .invoke unit values => errorOf? (e.invoke unit values)
  | .evaluate outputs => errorOf? (e.evaluate outputs).1
  | .evaluateWith inputs values outputs => errorOf? (e.evaluateWith inputs values outputs).1

/-- The operations that do one thing only; evaluating compiles and runs. -/
def Command.isSingle : Command → Bool
  | .writeInput .. | .setInput .. | .readInput .. | .syncInputs | .invoke .. | .compile .. => true
  | _ => false

/-- Nothing that can be observed through the graph, the cells and the cached units has changed.
Cells may have been added. -/
structure Unchanged (e e' : Evaluator) : Prop where
  graph : e'.graph = e.graph
  banks : e.banks <+: e'.banks
  reads : ∀ port value, e.readInput port = .ok value → e'.readInput port = .ok value
  units : e'.cache.units = e.cache.units
  evaluations : ∀ r unit values, e.cache.find? e.version r = some unit →
    (e'.evaluateRequest r values).1 = (e.evaluateRequest r values).1

theorem Unchanged.refl (e : Evaluator) : e.Unchanged e :=
  ⟨rfl, List.prefix_rfl, fun _ _ h => h, rfl, fun _ _ _ _ => rfl⟩

/-- The input has the value, in its cell and in the graph, and all else is as it was. -/
structure Sets (e : Evaluator) (port : PortRef) (value : Value) (e' : Evaluator) : Prop where
  read : e'.readInput port = .ok value
  authored : e'.graph.authored? port = some value
  others : ∀ other, other ≠ port →
    e'.readInput other = e.readInput other ∧ e'.graph.authored? other = e.graph.authored? other
  same : e'.graph.SameStructure e.graph
  banks : ∀ globals, e.currentGlobals = .ok globals → ∀ k, k ≠ globals.bank →
    e'.bank k = e.bank k
  cache : e'.cache = e.cache

/-! ## Banks that were there -/

theorem bank_of_extended (h : e.banks <+: e'.banks) {k : Nat} (hk : k < e.banks.length) :
    e'.bank k = e.bank k := by
  obtain ⟨added, hadded⟩ := h
  unfold bank
  rw [← hadded, List.getElem?_append_left hk]

/-- Cached units run as before on the banks that were there. -/
theorem evaluateRequest_of_kept (he : e.Coherent) (hgraph : e'.graph = e.graph)
    (hbanks : e.banks <+: e'.banks) (hunits : e'.cache.units = e.cache.units)
    {unit : CompiledUnit} (hfind : e.cache.find? e.version r = some unit)
    (values : List Value) :
    (e'.evaluateRequest r values).1 = (e.evaluateRequest r values).1 := by
  obtain ⟨hkey, hversion, houtputs, globals, hglobals, hinto⟩ := he.units _ (mem_of_find? hfind)
  have hr : r = unit.request := (Prod.mk.inj hkey).2
  have hversion' : unit.version = e'.version := by
    unfold version
    rw [hgraph]
    exact hversion
  have hfound : e.cache.find? unit.version unit.request = some unit := by
    rw [← hr, show unit.version = e.version from hversion]
    exact hfind
  have hfound' : e'.cache.find? unit.version unit.request = some unit := by
    unfold Cache.find?
    rw [hunits]
    exact hfound
  have hbank : unit.bank < e.banks.length := by
    rw [hinto.bank]
    exact (he.banks globals hglobals).1
  rw [hr, evaluateRequest_of_cached houtputs hversion' hfound',
    evaluateRequest_of_cached houtputs hversion hfound]
  exact invoke_congr hgraph (bank_of_extended hbanks hbank) values

/-! ## Requests -/

theorem Ensured.banks (hensured : e.Ensured globals e') : e.banks <+: e'.banks := by
  cases hglobals : e.cache.globals with
  | none =>
      rw [(hensured.fresh hglobals).2.2.1]
      exact List.prefix_append _ _
  | some before => exact (hensured.kept before hglobals).2.1 ▸ List.prefix_rfl

/-- Cells that can be read are kept, with what they hold; only their backend has grown. -/
theorem readInput_of_grown (he : e.Coherent) {before : CompiledGlobals} {backend : Backend}
    (hbefore : e.cache.globals = some before) (he' : e'.Coherent)
    (hafter : e'.cache.globals = some { before with backend }) (hbanks : e'.banks = e.banks)
    (port : PortRef) (value : Value) :
    e'.readInput port = .ok value ↔ e.readInput port = .ok value := by
  have hbank : e'.bank before.bank = e.bank before.bank := by
    unfold bank
    rw [hbanks]
  rw [readInput_eq_ok_iff (currentGlobals_of_globals he' hafter),
    readInput_eq_ok_iff (currentGlobals_of_globals he hbefore)]
  simp only [hbank]

theorem installed_of_readInput (he : e.Coherent) (h : e.readInput port = .ok value) :
    ∃ globals, e.cache.globals = some globals := by
  cases hglobals : e.currentGlobals with
  | error err =>
      unfold readInput at h
      rw [hglobals] at h
      contradiction
  | ok globals => exact ⟨globals, globals_of_currentGlobals he hglobals⟩

theorem unchanged_compile (he : e.Coherent) (h : (e.compile r).1 = .error err) :
    e.Unchanged (e.compile r).2 := by
  have hasks := asks_compile he r
  have he' := Changes.coherent (compiles_compile he r).changes he
  generalize e.compile r = outcome at hasks h he' ⊢
  obtain ⟨result, e'⟩ := outcome
  cases hasks with
  | refused _ => exact .refl _
  | found _ _ => contradiction
  | @failed globals e₁ _ backend _ _ ensured _ =>
      have hgraph : e₁.graph = e.graph := ensured.graph.trans (counted_graph e _)
      have hbanks := ensured.banks
      rw [counted_banks] at hbanks
      refine ⟨hgraph, hbanks, ?_, ensured.units, ?_⟩
      · intro port value hread
        obtain ⟨before, hbefore⟩ := installed_of_readInput he hread
        obtain ⟨rfl, hsame, -⟩ := ensured.kept before hbefore
        exact (readInput_of_grown he hbefore he' (ensured.grown backend)
          (hsame.trans (counted_banks e _)) port value).2 hread
      · intro r' unit values hfind
        apply evaluateRequest_of_kept he
        · exact hgraph
        · exact hbanks
        · exact ensured.units
        · exact hfind
  | built _ _ _ _ => contradiction

/-! ## All single operations -/

theorem unchanged_of_error (he : e.Coherent) (hstep : InStep graphs e) {command : Command}
    (hsingle : command.isSingle = true) (herror : e.error? command = some err) :
    e.Unchanged (e.step command) := by
  cases command with
  | writeInput port value =>
      have herror := errorOf?_eq_some herror
      rw [step]
      rcases writeInput_cases e port value with ⟨found, hwrite⟩ | ⟨globals, cell, -, -, -, hwrite⟩
      · rw [hwrite]
        exact .refl e
      · rw [hwrite] at herror
        contradiction
  | setInput port value =>
      have herror := errorOf?_eq_some herror
      rw [step]
      rcases setInput_cases he hstep port value with ⟨found, hset⟩ | ⟨globals, cell, g, -, -, -,
        -, hset⟩
      · rw [hset]
        exact .refl e
      · rw [hset] at herror
        contradiction
  | readInput port => exact .refl e
  | syncInputs =>
      have herror := errorOf?_eq_some herror
      rw [step]
      unfold syncInputs at herror ⊢
      cases hglobals : e.currentGlobals with
      | error found => exact .refl e
      | ok globals =>
          have hfor := hstep.layout globals (globals_of_currentGlobals he hglobals)
          obtain ⟨banks, hsync, -⟩ := syncFrom_of_laidOutFor hstep.reachable.wellFormed hfor e
          simp only [hglobals, hsync] at herror
          contradiction
  | invoke unit values => exact .refl e
  | compile r => exact unchanged_compile he (errorOf?_eq_some herror)
  | _ => contradiction

theorem sets_setInput (he : e.Coherent) (hstep : InStep graphs e)
    (h : (e.setInput port value).1 = .ok ()) :
    e.Sets port value (e.setInput port value).2 := by
  have hreads := fun other (hne : other ≠ port) => readInput_setInput_of_ne he hstep hne value
  have hkeeps := keeps_setInput e port value
  rcases setInput_cases he hstep port value with ⟨err, hset⟩ | ⟨globals, cell, g, hglobals, hcell,
    htype, hgraph, hset⟩
  · rw [hset] at h
    contradiction
  · obtain ⟨-, hlookup⟩ := writeInput_eq_ok he hglobals hcell htype
    rw [hset] at hreads hkeeps ⊢
    refine ⟨?_, ?_, ?_, Graph.sameStructure_setInputValue hgraph, ?_, rfl⟩
    · rw [readInput_eq_ok_iff ((hkeeps.currentGlobals he).trans hglobals)]
      refine ⟨cell, value.toBytes, hcell, hlookup, ?_⟩
      rw [← htype]
      exact Value.ofBytes?_toBytes value
    · exact (Graph.authored?_setInputValue hgraph port).trans (if_pos rfl)
    · intro other hne
      exact ⟨hreads other hne, (Graph.authored?_setInputValue hgraph other).trans (if_neg hne)⟩
    · intro globals' hglobals' k hk
      rw [hglobals] at hglobals'
      cases hglobals'
      exact (bank_putCell e globals.bank cell.symbol value k).trans (if_neg (Ne.symm hk))

/-- An operation that does one thing and fails has changed nothing, in every state that is
reached; setting an input changes its two values and nothing else, or fails. -/
theorem error_unchanged (g : Graph) (options : Options) (commands : List Command)
    (hapart : Graph.ToldApart (graphsOf g commands)) :
    (∀ command err, command.isSingle = true →
      ((new g options).after commands).error? command = some err →
      ((new g options).after commands).Unchanged
        (((new g options).after commands).step command)) ∧
    ∀ port value, (((new g options).after commands).setInput port value).1 = .ok () →
      ((new g options).after commands).Sets port value
        (((new g options).after commands).setInput port value).2 := by
  have he := coherent_after g options commands
  have hstep := inStep_after hapart options
  exact ⟨fun command err hsingle herror => unchanged_of_error he hstep hsingle herror,
    fun port value h => sets_setInput he hstep h⟩

end Evaluator

namespace LoneSum

open Evaluator

/-- A truth value is refused by a summand, a number is taken. -/
theorem error_unchanged_loneSum : Graph.ToldApart (graphsOf graph commands) ∧
    ((new graph {}).after commands).error? (.setInput ⟨"sum", "a"⟩ (.bool true)) =
      some (.valueTypeMismatch ⟨"sum", "a"⟩ .i32 .bool) ∧
    ((new graph {}).after commands).Unchanged
      (((new graph {}).after commands).step (.setInput ⟨"sum", "a"⟩ (.bool true))) ∧
    (((new graph {}).after commands).setInput ⟨"sum", "a"⟩ (.i32 3)).1 = .ok () ∧
    ((new graph {}).after commands).Sets ⟨"sum", "a"⟩ (.i32 3)
      (((new graph {}).after commands).setInput ⟨"sum", "a"⟩ (.i32 3)).2 := by
  have hapart : Graph.ToldApart (graphsOf graph commands) :=
    toldApart.mono (List.subset_append_left [graph] [edited])
  obtain ⟨hunchanged, hsets⟩ := error_unchanged graph {} commands hapart
  obtain ⟨_, _, e, _, _, _, _, hafter, hgraph, _, hglobals, _, _⟩ := after_commands
  have he : e.Coherent := hafter ▸ coherent_after graph {} commands
  have hcurrent := currentGlobals_of_globals he hglobals
  have hcell : globals.layout.cell? ⟨"sum", "a"⟩ =
      some ⟨⟨"sum", "a"⟩, "sum - a", .i32, .i32 0⟩ := by decide +kernel
  rw [hafter] at hunchanged hsets ⊢
  have hrefused : e.error? (.setInput ⟨"sum", "a"⟩ (.bool true)) =
      some (.valueTypeMismatch ⟨"sum", "a"⟩ .i32 .bool) := by
    simp only [error?, setInput, writeInput, writeCell, hcurrent, hcell]
    rfl
  have hwrite := (writeInput_eq_ok he hcurrent hcell
    (show (Value.i32 3).dataType = .i32 from rfl)).1
  have htaken : (e.setInput ⟨"sum", "a"⟩ (.i32 3)).1 = .ok () := by
    obtain ⟨g, hset⟩ : ∃ g, graph.remember.setInputValue ⟨"sum", "a"⟩ (.i32 3) = .ok g := ⟨_, rfl⟩
    rw [← hgraph] at hset
    rw [setInput_of_written hwrite hset]
  exact ⟨hapart, hrefused, hunchanged _ _ rfl hrefused, htaken, hsets _ _ htaken⟩

end LoneSum

end Dataflow
