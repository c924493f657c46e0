import Dataflow.Proofs.Evaluator.Contents
import Dataflow.Proofs.Evaluator.HeldUnits

/-!
# Cells as a store

A journal of what has befallen the inputs during a run, newest first. The authored value of an
input is the one in the graph taken over last, unless it was set since; its cell holds the value
written or set last, unless the cells were synchronised with the authored values or compiled
from them since. `Evaluator.readInput_of_run`: reading gives exactly the value in the journal,
for exactly the free inputs of the graph.
-/

namespace Dataflow

open Ir

namespace Evaluator

/-- What can befall the inputs. -/
inductive Event
  /-- A graph was taken over. -/
  | taken (g : Graph)
  | written (port : PortRef) (value : Value)
  /-- The value was written and authored. -/
  | set (port : PortRef) (value : Value)
  | synced
  | compiled

/-- The authored value of an input after these events. -/
def authored (port : PortRef) : List Event → Option Value
  | [] => none
  | .taken g :: _ => g.authored? port
  | .set p value :: past => if port = p then some value else authored port past
  | _ :: past => authored port past

/-- The value that the cell of an input was given last. -/
def given (port : PortRef) : List Event → Option Value
  | [] => none
  | .taken _ :: past => given port past
  | .written p value :: past => if port = p then some value else given port past
  | .set p value :: past => if port = p then some value else given port past
  | .synced :: past => authored port past
  | .compiled :: past => authored port past

/-- The cells are compiled where they were missing before and are there afterwards. -/
def compilation (e e' : Evaluator) : List Event :=
  if e.cache.globals = none ∧ e'.cache.globals ≠ none then [.compiled] else []

/-- What an operation does to the inputs, newest first. -/
def events (e : Evaluator) (command : Command) : List Event :=
  match command with
  | .replaceGraph g => if g.version = e.version then [.synced, .taken g] else [.taken g]
  | .writeInput port value =>
      if (e.writeInput port value).1.isOk then [.written port value] else []
  | .setInput port value => if (e.setInput port value).1.isOk then [.set port value] else []
  | .syncInputs => if e.syncInputs.1.isOk then [.synced] else []
  | _ => e.compilation (e.step command)

def journalFrom (e : Evaluator) (past : List Event) : List Command → List Event
  | [] => past
  | command :: commands => (e.step command).journalFrom (e.events command ++ past) commands

/-- The journal of a run from the first graph on. -/
def journal (g : Graph) (options : Options) (commands : List Command) : List Event :=
  (new g options).journalFrom [.taken g] commands

variable {e e' : Evaluator} {graphs : List Graph} {past : List Event} {globals : CompiledGlobals}

theorem compilation_of_same (h : e'.cache.globals = e.cache.globals) : e.compilation e' = [] := by
  unfold compilation
  rw [h]
  exact if_neg fun hboth => hboth.2 hboth.1

theorem compilation_of_dropped (h : e'.cache.globals = none) : e.compilation e' = [] :=
  if_neg fun hboth => hboth.2 h

theorem compilation_of_installed (h : e'.cache.globals ≠ none) :
    e.compilation e' = if e.cache.globals = none then [.compiled] else [] := by
  unfold compilation
  simp only [h, ne_eq, not_false_eq_true, and_true]

/-- The graph and the cells hold what the journal says. -/
structure Recorded (e : Evaluator) (past : List Event) : Prop where
  authored : ∀ port, e.graph.authored? port = authored port past
  cells : ∀ globals, e.cache.globals = some globals → e.Shows globals (given · past)

/-- Operations that neither touch an input nor compile the cells leave no trace. -/
theorem Recorded.keep (h : e.Recorded past) (hgraph : e'.graph = e.graph)
    (hcells : ∀ globals', e'.cache.globals = some globals' → ∃ globals,
      e.cache.globals = some globals ∧ globals'.layout = globals.layout ∧
        globals'.bank = globals.bank ∧ e'.bank globals.bank = e.bank globals.bank) :
    e'.Recorded past := by
  refine ⟨fun port => hgraph ▸ h.authored port, ?_⟩
  intro globals' hglobals' cell hcell
  obtain ⟨globals, hglobals, hlayout, hnumber, hbank⟩ := hcells globals' hglobals'
  rw [hlayout] at hcell
  rw [hnumber, hbank]
  exact h.cells globals hglobals cell hcell

/-! ## Operations on inputs -/

theorem Recorded.writeInput (h : e.Recorded past) (hstep : InStep graphs e) (he : e.Coherent)
    (port : PortRef) (value : Value) :
    (e.step (.writeInput port value)).Recorded (e.events (.writeInput port value) ++ past) := by
  rw [step, events]
  rcases writeInput_cases e port value with ⟨err, hwrite⟩ | ⟨globals, cell, hglobals, hcell,
    htype, hwrite⟩
  · rw [hwrite]
    exact h
  · obtain ⟨hmem, rfl⟩ := StorageLayout.mem_of_cell? hcell
    have hinstalled := globals_of_currentGlobals he hglobals
    rw [hwrite]
    refine ⟨h.authored, ?_⟩
    intro globals' hglobals'
    change e.cache.globals = some globals' at hglobals'
    rw [hinstalled] at hglobals'
    cases hglobals'
    exact (h.cells globals hinstalled).putCell (hstep.layout globals hinstalled) hmem htype

theorem Recorded.setInput (h : e.Recorded past) (hstep : InStep graphs e) (he : e.Coherent)
    (port : PortRef) (value : Value) :
    (e.step (.setInput port value)).Recorded (e.events (.setInput port value) ++ past) := by
  rw [step, events]
  rcases setInput_cases he hstep port value with ⟨err, hset⟩ | ⟨globals, cell, g, hglobals, hcell,
    htype, hgraph, hset⟩
  · rw [hset]
    exact h
  · obtain ⟨hmem, rfl⟩ := StorageLayout.mem_of_cell? hcell
    have hinstalled := globals_of_currentGlobals he hglobals
    rw [hset]
    refine ⟨?_, ?_⟩
    · intro port
      change g.authored? port =
        if port = cell.port then some value else Evaluator.authored port past
      rw [Graph.authored?_setInputValue hgraph, h.authored]
    · intro globals' hglobals'
      change e.cache.globals = some globals' at hglobals'
      rw [hinstalled] at hglobals'
      cases hglobals'
      exact ((h.cells globals hinstalled).putCell (hstep.layout globals hinstalled) hmem
        htype).congr rfl

theorem Recorded.syncInputs (h : e.Recorded past) (hstep : InStep graphs e) (he : e.Coherent) :
    (e.step .syncInputs).Recorded (e.events .syncInputs ++ past) := by
  rw [step, events, Evaluator.syncInputs]
  cases hglobals : e.currentGlobals with
  | error err => exact h
  | ok globals =>
      have hinstalled := globals_of_currentGlobals he hglobals
      obtain ⟨banks, hsync, hshows⟩ := syncFrom_of_laidOutFor hstep.reachable.wellFormed
        (hstep.layout globals hinstalled) e
      simp only [hsync]
      refine ⟨h.authored, ?_⟩
      intro globals' hglobals'
      change e.cache.globals = some globals' at hglobals'
      rw [hinstalled] at hglobals'
      cases hglobals'
      have hcontents : e.graph.authored? = fun port => Evaluator.authored port past :=
        funext h.authored
      rw [hcontents] at hshows
      exact hshows _ (h.cells globals hinstalled)

theorem Recorded.replaceGraph (h : e.Recorded past) (hstep : InStep graphs e) (he : e.Coherent)
    (hapart : Graph.ToldApart graphs) {g : Graph} (hg : g ∈ graphs) :
    (e.step (.replaceGraph g)).Recorded (e.events (.replaceGraph g) ++ past) := by
  rw [step, events]
  by_cases hversion : g.version = e.version
  · rw [if_pos hversion]
    cases hglobals : e.cache.globals with
    | none =>
        rw [replaceGraph_of_uninstalled hversion hglobals]
        refine ⟨fun port => rfl, ?_⟩
        intro globals' hglobals'
        change e.cache.globals = some globals' at hglobals'
        rw [hglobals] at hglobals'
        contradiction
    | some globals =>
        have hagrees : g.remember.Agrees e.graph := hapart.agrees_of_version
          ⟨g, hg, (hapart.reachable g hg).agrees_remember⟩ hstep.graph hversion
        obtain ⟨k, hk, hlayout⟩ := hstep.layout globals hglobals
        have hfor : globals.LaidOutFor g.remember := ⟨k, hk.trans hagrees.symm, hlayout⟩
        obtain ⟨banks, hsync, hshows⟩ := syncFrom_of_laidOutFor hagrees.left.wellFormed hfor
          { e with graph := g.remember }
        rw [replaceGraph_of_installed he hversion hglobals hsync]
        refine ⟨fun port => rfl, ?_⟩
        intro globals' hglobals'
        change e.cache.globals = some globals' at hglobals'
        rw [hglobals] at hglobals'
        cases hglobals'
        exact hshows (given · past) ((h.cells globals hglobals).congr rfl)
  · rw [if_neg hversion, replaceGraph_of_ne hversion]
    refine ⟨fun port => rfl, ?_⟩
    intro globals' hglobals'
    have hnone := he.invalidate_version.1
    change (e.cache.invalidate e.version).2.globals = some globals' at hglobals'
    rw [hnone] at hglobals'
    contradiction

/-! ## Compiling -/

theorem Recorded.ensured (h : e.Recorded past) (hstep : InStep graphs e)
    (hapart : Graph.ToldApart graphs) (hensured : e.Ensured globals e') :
    e'.Recorded ((if e.cache.globals = none then [.compiled] else []) ++ past) := by
  cases hglobals : e.cache.globals with
  | none =>
      rw [if_pos rfl]
      refine ⟨fun port => hensured.graph ▸ h.authored port, ?_⟩
      intro globals' hglobals'
      rw [hensured.installed] at hglobals'
      cases hglobals'
      have hcontents : e.graph.authored? = fun port => Evaluator.authored port past :=
        funext h.authored
      have hshows := hensured.shows hglobals hstep.reachable.wellFormed
        (hstep.freshLayout_eq hapart)
      rw [hcontents] at hshows
      exact hshows
  | some before =>
      obtain ⟨rfl, hbanks, -⟩ := hensured.kept before hglobals
      rw [if_neg nofun]
      refine h.keep hensured.graph ?_
      intro globals' hglobals'
      rw [hensured.installed] at hglobals'
      cases hglobals'
      refine ⟨_, hglobals, rfl, rfl, ?_⟩
      unfold bank
      rw [hbanks]

theorem Recorded.compiled (h : e.Recorded past) (backend : Backend) {cache : Cache}
    (hcache : cache.globals = (e.cache.setBackend backend).globals) :
    Recorded { e with cache } past := by
  refine h.keep rfl ?_
  intro globals' hglobals'
  change cache.globals = some globals' at hglobals'
  rw [hcache] at hglobals'
  obtain ⟨globals, hglobals, rfl⟩ := Option.map_eq_some_iff.1 hglobals'
  exact ⟨globals, hglobals, rfl, rfl, rfl⟩

/-- Dropped cells need no values; others are as they were. -/
theorem Recorded.dropped (h : e.Recorded past) (version : Version) :
    (e.invalidate version).2.Recorded (e.compilation (e.invalidate version).2 ++ past) := by
  have hnone : e.compilation (e.invalidate version).2 = [] := by
    cases hglobals : (e.invalidate version).2.cache.globals with
    | none => exact compilation_of_dropped hglobals
    | some globals =>
        have hkept : e.cache.globals = some globals := Option.eq_some_of_filter_eq_some hglobals
        exact compilation_of_same (hglobals.trans hkept.symm)
  rw [hnone]
  refine h.keep rfl ?_
  intro globals hglobals
  exact ⟨globals, Option.eq_some_of_filter_eq_some hglobals, rfl, rfl, rfl⟩

theorem Recorded.counted (h : e.Recorded past) (stats : CacheStats) :
    (e.counted stats).Recorded past := by
  refine h.keep (counted_graph e stats) ?_
  intro globals hglobals
  refine ⟨globals, hglobals, rfl, rfl, ?_⟩
  unfold bank
  rw [counted_banks]

theorem Recorded.compile (h : e.Recorded past) (hstep : InStep graphs e) (he : e.Coherent)
    (hapart : Graph.ToldApart graphs) (r : UnitRequest) :
    (e.compile r).2.Recorded (e.compilation (e.compile r).2 ++ past) := by
  have hasks := asks_compile he r
  generalize e.compile r = outcome at hasks ⊢
  obtain ⟨result, e'⟩ := outcome
  cases hasks with
  | refused _ =>
      rw [compilation_of_same rfl]
      exact h
  | found _ _ =>
      have hsame : e.compilation (e.counted e.cache.stats.countHit) = [] :=
        compilation_of_same rfl
      change (e.counted _).Recorded (e.compilation (e.counted _) ++ past)
      rw [hsame]
      exact h.counted _
  | @failed globals e₁ _ backend _ _ ensured _ =>
      have hrecorded := (h.counted _).ensured (hstep.counted hapart _) hapart ensured
      rw [compilation_of_installed (by simp [Cache.setBackend, ensured.installed])]
      exact hrecorded.compiled backend rfl
  | @built globals e₁ _ backend _ _ ensured _ =>
      have hrecorded := (h.counted _).ensured (hstep.counted hapart _) hapart ensured
      rw [compilation_of_installed (by simp [Cache.setBackend, Cache.insert, ensured.installed])]
      exact hrecorded.compiled backend rfl

/-- What an operation does is what the journal says it does. -/
theorem Recorded.step (h : e.Recorded past) (hstep : InStep graphs e) (he : e.Coherent)
    (hapart : Graph.ToldApart graphs) {command : Command}
    (hlisted : ∀ g, command.graph? = some g → g ∈ graphs) :
    (e.step command).Recorded (e.events command ++ past) := by
  have hrefresh : e.refresh.Recorded (e.compilation e.refresh ++ past) := by
    rw [compilation_of_same (congrArg Cache.globals (cache_refresh e))]
    refine h.keep (graph_refresh e) ?_
    intro globals hglobals
    rw [cache_refresh] at hglobals
    refine ⟨globals, hglobals, rfl, rfl, ?_⟩
    unfold bank
    rw [banks_refresh]
  have hself : e.Recorded (e.compilation e ++ past) := by
    rw [compilation_of_same rfl]
    exact h
  cases command with
  | replaceGraph g => exact h.replaceGraph hstep he hapart (hlisted g rfl)
  | writeInput port value => exact h.writeInput hstep he port value
  | setInput port value => exact h.setInput hstep he port value
  | syncInputs => exact h.syncInputs hstep he
  | ensureGlobals =>
      obtain ⟨globals, e', hensure, hensured⟩ := exists_ensured he
      have hrecorded := h.ensured hstep hapart hensured
      change e.ensureGlobals.2.Recorded (e.compilation e.ensureGlobals.2 ++ past)
      rw [hensure, compilation_of_installed (by simp [hensured.installed])]
      exact hrecorded
  | compile r => exact h.compile hstep he hapart r
  | evaluate outputs =>
      have hrecorded := h.compile hstep he hapart ⟨outputs, []⟩
      rw [← snd_evaluateRequest e _ []] at hrecorded
      exact hrecorded
  | evaluateWith inputs values outputs =>
      have hrecorded := h.compile hstep he hapart ⟨outputs, inputs⟩
      rw [← snd_evaluateRequest e _ values] at hrecorded
      exact hrecorded
  | index => exact hrefresh
  | code r => exact hrefresh
  | readInput port => exact hself
  | invoke unit values => exact hself
  | markStale =>
      have hdropped := h.dropped e.version
      exact ⟨hdropped.authored, hdropped.cells⟩
  | invalidate version => exact h.dropped version

theorem recorded_new (g : Graph) (options : Options) : (new g options).Recorded [.taken g] :=
  ⟨fun _ => rfl, fun _ hglobals => by contradiction⟩

theorem Recorded.after (h : e.Recorded past) (hstep : InStep graphs e) (he : e.Coherent)
    (hapart : Graph.ToldApart graphs) {commands : List Command}
    (hlisted : ∀ command ∈ commands, ∀ g, command.graph? = some g → g ∈ graphs) :
    (e.after commands).Recorded (e.journalFrom past commands) := by
  induction commands generalizing e past with
  | nil => exact h
  | cons command commands ih =>
      rw [List.forall_mem_cons] at hlisted
      exact ih (h.step hstep he hapart hlisted.1) (hstep.step hapart he hlisted.1)
        (Changes.coherent (changes_step he command) he) hlisted.2

theorem journalFrom_snoc (e : Evaluator) (past : List Event) (commands : List Command)
    (command : Command) :
    e.journalFrom past (commands ++ [command]) =
      (e.after commands).events command ++ e.journalFrom past commands := by
  induction commands generalizing e past with
  | nil => rfl
  | cons first commands ih => exact ih _ _

/-! ## Reading -/

/-- After a run the journal gives the authored values of all inputs and, once the cells are
compiled, the values that are read at the free inputs; reading succeeds at no others. What is
written at one input is never read at another. -/
theorem readInput_of_run (g : Graph) (options : Options) (commands : List Command)
    (hapart : Graph.ToldApart (graphsOf g commands)) :
    (∀ port, ((new g options).after commands).graph.authored? port =
      authored port (journal g options commands)) ∧
    (∀ globals, ((new g options).after commands).currentGlobals = .ok globals →
      (∀ port, (∃ value, ((new g options).after commands).readInput port = .ok value) ↔
        ∃ ty, ((new g options).after commands).graph.FreeInput port ty) ∧
      ∀ port value, ((new g options).after commands).readInput port = .ok value →
        given port (journal g options commands) = some value) ∧
    ∀ port other, port ≠ other → ∀ value,
      (((new g options).after commands).writeInput other value).2.readInput port =
        ((new g options).after commands).readInput port ∧
      (((new g options).after commands).setInput other value).2.readInput port =
        ((new g options).after commands).readInput port := by
  have he := coherent_after g options commands
  have hstep := inStep_after hapart options
  have hrecorded : ((new g options).after commands).Recorded (journal g options commands) :=
    (recorded_new g options).after
      (inStep_new (hapart.reachable g List.mem_cons_self) List.mem_cons_self options)
      (coherent_new g options) hapart fun _ hcommand _ hgraph => mem_graphsOf hcommand hgraph
  refine ⟨hrecorded.authored, ?_, ?_⟩
  · intro globals hglobals
    have hinstalled := globals_of_currentGlobals he hglobals
    have hshows := hrecorded.cells globals hinstalled
    refine ⟨?_, ?_⟩
    · intro port
      rw [← (hstep.layout globals hinstalled).exists_cell_iff]
      simp only [hshows.readInput hglobals]
      refine ⟨fun ⟨_, hcell, _⟩ => hcell, ?_⟩
      rintro ⟨cell, hcell⟩
      obtain ⟨hmem, rfl⟩ := StorageLayout.mem_of_cell? hcell
      obtain ⟨value, hvalue, -⟩ := hshows cell hmem
      exact ⟨value, ⟨cell, hcell⟩, hvalue⟩
    · intro port value hread
      exact ((hshows.readInput hglobals port value).1 hread).2
  · intro port other hne value
    exact ⟨readInput_writeInput_of_ne he hstep hne value,
      readInput_setInput_of_ne he hstep hne value⟩

end Evaluator

namespace LoneSum

open Evaluator

/-- An edit is taken over at the end. -/
def takeover : List Command := commands ++ [.replaceGraph edited]

/-- The edit reaches the cell, which held a written value before. -/
theorem readInput_of_run_takeover : Graph.ToldApart (graphsOf graph takeover) ∧
    ((new graph {}).after commands).readInput ⟨"sum", "a"⟩ = .ok (.i32 5) ∧
    ((new graph {}).after takeover).readInput ⟨"sum", "a"⟩ = .ok (.i32 7) := by
  have hapart : Graph.ToldApart (graphsOf graph takeover) := toldApart
  obtain ⟨_, _, e, _, _, _, _, hafter, hgraph, _, hglobals, _, hbanks⟩ := after_commands
  have he : e.Coherent := hafter ▸ coherent_after graph {} commands
  have he' := coherent_after graph {} takeover
  have hversion : edited.version = e.version := by
    rw [version, hgraph]
    exact edited_agrees.version
  have hcell : globals.layout.cell? ⟨"sum", "a"⟩ =
      some ⟨⟨"sum", "a"⟩, "sum - a", .i32, .i32 0⟩ := by decide +kernel
  refine ⟨hapart, ?_, ?_⟩
  · rw [hafter, readInput_eq_ok_iff (currentGlobals_of_globals he hglobals)]
    refine ⟨_, [5, 0, 0, 0], hcell, ?_, by decide⟩
    unfold Evaluator.bank
    rw [hbanks]
    rfl
  · have hinstalled : ((new graph {}).after takeover).cache.globals = some globals := by
      obtain ⟨banks, hframe⟩ := replaceGraph_frame_of_eq he hversion
      rw [takeover, after_snoc, hafter, step, hframe]
      exact hglobals
    have hfree := ((inStep_after hapart {}).layout globals hinstalled).exists_cell_iff.1 ⟨_, hcell⟩
    have hgiven : given ⟨"sum", "a"⟩ (journal graph {} takeover) = some (.i32 7) := by
      rw [journal, takeover, journalFrom_snoc, hafter, events, if_pos hversion]
      rfl
    obtain ⟨-, hread, -⟩ := readInput_of_run graph {} takeover hapart
    obtain ⟨hreads, hvalues⟩ := hread globals (currentGlobals_of_globals he' hinstalled)
    obtain ⟨value, hok⟩ := (hreads ⟨"sum", "a"⟩).2 hfree
    rw [hvalues _ _ hok] at hgiven
    cases hgiven
    exact hok

end LoneSum

end Dataflow
