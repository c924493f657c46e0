import Dataflow.Proofs.Backend.MadeUnits
import Dataflow.Proofs.Evaluator.CachedUnits
import Dataflow.Proofs.Evaluator.Consistency
import Dataflow.Proofs.Evaluator.OutputRecords

/-!
# Runs without failures

As long as no request of a run fails, the backend of an evaluator stays settled, and every unit
in the cache was made for the present graph: `Evaluator.unfailed_after`. Such an evaluator has a
unit for whatever the graph accepts: `Evaluator.Unfailed.exists_compile`.
-/

namespace Dataflow

open Ir

namespace Evaluator

variable {e e' : Evaluator} {graphs : List Graph} {globals : CompiledGlobals} {r : UnitRequest}
  {unit : CompiledUnit}

/-! ## Options -/

theorem options_ensureGlobals (e : Evaluator) : e.ensureGlobals.2.options = e.options := by
  unfold ensureGlobals
  simp only
  split
  · exact options_refresh e
  · split <;> exact options_refresh e

theorem options_compileNew (e : Evaluator) (r : UnitRequest) :
    (e.compileNew r).2.options = e.options := by
  have hensure := options_ensureGlobals e
  unfold compileNew
  split
  · rename_i hrun
    rw [hrun] at hensure
    exact hensure
  · rename_i hrun
    rw [hrun] at hensure
    split <;> exact hensure

theorem options_compile (e : Evaluator) (r : UnitRequest) :
    (e.compile r).2.options = e.options := by
  by_cases hempty : r.outputs = []
  · rw [compile_of_empty hempty]
  · cases hfind : e.cache.find? e.version r with
    | some unit => rw [compile_of_hit hempty hfind, counted_options]
    | none => rw [compile_of_miss hempty hfind, options_compileNew, counted_options]

/-- An evaluator is made with its options once and for all. -/
theorem options_step (he : e.Coherent) (command : Command) :
    (e.step command).options = e.options := by
  cases command with
  | replaceGraph g =>
      by_cases hversion : g.version = e.version
      · obtain ⟨banks, hframe⟩ := replaceGraph_frame_of_eq he hversion
        rw [step, hframe]
      · rw [step, replaceGraph_of_ne hversion]
        rfl
  | markStale => rfl
  | invalidate version => rfl
  | index => exact options_refresh e
  | ensureGlobals => exact options_ensureGlobals e
  | compile r => exact options_compile e r
  | code r => exact options_refresh e
  | writeInput port value =>
      rcases writeInput_cases e port value with ⟨err, h⟩ | ⟨globals, cell, -, -, -, h⟩
      · rw [step, h]
      · rw [step, h]
        rfl
  | setInput port value =>
      obtain ⟨graph, banks, hframe⟩ := setInput_frame e port value
      rw [step, hframe]
  | readInput port => rfl
  | syncInputs =>
      obtain ⟨banks, hframe⟩ := syncInputs_frame e
      rw [step, hframe]
  | invoke unit values => rfl
  | evaluate outputs =>
      rw [step_of_request rfl]
      exact options_compile e _
  | evaluateWith inputs values outputs =>
      rw [step_of_request rfl]
      exact options_compile e _

/-! ## The invariant -/

/-- The backend of the cells is settled, and the units were made for the present graph. -/
structure Unfailed (e : Evaluator) : Prop where
  globals : ∀ globals, e.cache.globals = some globals →
    globals.backend.Settled globals.layout ∧ globals.backend.verify = e.options.verify
  units : ∀ entry ∈ e.cache.units, entry.2.MadeFor e.graph e.options.verify

theorem unfailed_new (g : Graph) (options : Options) : (new g options).Unfailed :=
  ⟨fun _ hglobals => by contradiction, fun _ hentry => by contradiction⟩

theorem Unfailed.counted (h : e.Unfailed) (stats : CacheStats) : (e.counted stats).Unfailed := by
  refine ⟨?_, ?_⟩
  · rw [counted_options]
    exact h.globals
  · rw [counted_options, counted_graph]
    exact h.units

/-- New cells come with a new backend. -/
theorem Unfailed.ensured (h : e.Unfailed) (he : e.Coherent)
    (hensure : e.ensureGlobals = (.ok globals, e')) (hensured : e.Ensured globals e') :
    e'.Unfailed ∧ globals.backend.Settled globals.layout ∧
      globals.backend.verify = e'.options.verify := by
  have hoptions := options_ensureGlobals e
  rw [hensure] at hoptions
  have hsettled : globals.backend.Settled globals.layout ∧
      globals.backend.verify = e'.options.verify := by
    rw [hoptions]
    cases hglobals : e.cache.globals with
    | some before =>
        obtain ⟨rfl, -⟩ := hensured.kept before hglobals
        exact h.globals _ hglobals
    | none =>
        unfold ensureGlobals at hensure
        simp only [version_refresh, cache_refresh, globals?_version he, hglobals] at hensure
        split at hensure
        · cases hensure
        · rename_i hcompile
          cases hensure
          have hbackend := Backend.settled_compileGlobals (StorageLayout.nodup_symbols _ _) hcompile
          rwa [options_refresh] at hbackend
  refine ⟨⟨?_, ?_⟩, hsettled⟩
  · intro globals' hglobals'
    rw [hensured.installed] at hglobals'
    cases hglobals'
    exact hsettled
  · rw [hensured.units, hensured.graph, hoptions]
    exact h.units

/-! ## Requests -/

/-- A backend with cells for the graph, up to its twins. -/
structure Serving (e : Evaluator) (globals : CompiledGlobals) (t : Graph) : Prop where
  graph : t.Twins e.graph
  layout : ∃ k : Graph, k.Twins e.graph ∧ globals.layout = k.layout
  settled : globals.backend.Settled t.layout
  verify : globals.backend.verify = e.options.verify

/-- A request that is not in the cache is built for a twin of the graph, with the cells there are
or with new ones. -/
theorem Unfailed.compile_of_missing (h : e.Unfailed) (he : e.Coherent) (hstep : InStep graphs e)
    (hapart : Graph.ToldApart graphs) (houtputs : r.outputs ≠ [])
    (hmissing : e.cache.find? e.version r = none) :
    ∃ (globals : CompiledGlobals) (e₁ : Evaluator) (t : Graph), e.Serving globals t ∧
      e₁.Unfailed ∧ e₁.graph = e.graph ∧ e₁.options = e.options ∧
      e₁.cache.globals = some globals ∧
      ∀ result b, globals.backend.build t (Index.build t) t.layout r = (result, b) →
        e.compile r = match result with
          | .error err => (.error err, { e₁ with cache := e₁.cache.setBackend b })
          | .ok generated => (.ok (.ofGenerated generated globals.bank), { e₁ with
              cache := (e₁.cache.setBackend b).insert (.ofGenerated generated globals.bank) }) := by
  have hcounted := (keeps_counted e e.cache.stats.countMiss).coherent he
  have hinstep := hstep.counted hapart e.cache.stats.countMiss
  obtain ⟨globals, e₁, hensure, hensured⟩ := exists_ensured hcounted
  obtain ⟨hunfailed, hsettled, hverify⟩ := (h.counted _).ensured hcounted hensure hensured
  obtain ⟨i, k, hi, hk, hindex, hlayout⟩ := hinstep.exists_agreeing hapart hensured
  have hgraph : e₁.graph = e.graph := hensured.graph.trans (counted_graph e _)
  have hoptions : e₁.options = e.options := by
    have hkept := options_ensureGlobals (e.counted e.cache.stats.countMiss)
    rwa [hensure, counted_options] at hkept
  have htwin := hi.symm.twins_relinked
  rw [hlayout] at hsettled
  rw [hoptions] at hverify
  have hserving : e.Serving globals (e₁.graph.relinked i) := {
    graph := hgraph ▸ htwin
    layout := ⟨k, hgraph ▸ hk.twins, hlayout⟩
    settled := (hk.twins.trans htwin.symm).settled hsettled
    verify := hverify }
  refine ⟨globals, e₁, _, hserving, hunfailed, hgraph, hoptions, hensured.installed, ?_⟩
  intro result b hbuild
  rw [← Backend.build_of_agrees hi hk, ← hindex, ← hlayout] at hbuild
  change (e.counted e.cache.stats.countMiss).ensureGlobals = _ at hensure
  simp only [CacheStats.countMiss] at hensure
  rw [compile_of_miss houtputs hmissing]
  unfold compileNew
  simp only [hensure, hbuild]
  cases result <;> rfl

/-- Whatever the graph accepts without a cycle gets a unit, provided that the functions it needs
pass the check. -/
theorem Unfailed.exists_compile (h : e.Unfailed) (he : e.Coherent) (hstep : InStep graphs e)
    (hapart : Graph.ToldApart graphs) (hreroutes : e.graph.ReroutesTyped)
    (hnames : ∀ n ∈ e.graph.nodes, ¬ "nodejit".toList <+: (Symbol.sanitize n.name).toList)
    (haccepts : e.graph.Accepts r) (hacyclic : e.graph.Acyclic r)
    (hchecked : e.options.verify = true → ∀ n ∈ e.graph.nodes, e.graph.Needs r n.name →
      ¬ r.Binds n.name → n.EmitsChecked) :
    ∃ unit, (e.compile r).1 = .ok unit := by
  cases hfind : e.cache.find? e.version r with
  | some unit =>
      rw [compile_of_hit haccepts.requested hfind]
      exact ⟨unit, rfl⟩
  | none =>
      obtain ⟨globals, e₁, t, hserving, -, -, -, -, hcompile⟩ :=
        h.compile_of_missing he hstep hapart haccepts.requested hfind
      have hback := hserving.graph.symm
      have hg := hserving.graph.left
      have hpasses : globals.backend.verify = true → t.PassesCheck r := by
        intro hverify n hn hneeds hfree
        exact ⟨hback.checked (hchecked (hserving.verify ▸ hverify)) n hn hneeds hfree,
          (hback.reroutesTyped hreroutes).fed hg hn⟩
      obtain ⟨generated, b, hbuild⟩ := (hserving.settled.exists_build_iff hg
        (Graph.unreserved_layout (hback.unreserved hnames))).2
          ⟨hback.accepts haccepts, hback.acyclic hacyclic, hpasses⟩
      rw [hcompile _ b hbuild]
      exact ⟨_, rfl⟩

/-- A request that gets its unit leaves the backend settled. -/
theorem Unfailed.compile (h : e.Unfailed) (he : e.Coherent) (hstep : InStep graphs e)
    (hapart : Graph.ToldApart graphs) (hunit : (e.compile r).1 = .ok unit) :
    (e.compile r).2.Unfailed := by
  by_cases hempty : r.outputs = []
  · rw [compile_of_empty hempty]
    exact h
  · cases hfind : e.cache.find? e.version r with
    | some unit =>
        rw [compile_of_hit hempty hfind]
        exact h.counted _
    | none =>
        obtain ⟨globals, e₁, t, hserving, h₁, hgraph, hoptions, hinstalled, hcompile⟩ :=
          h.compile_of_missing he hstep hapart hempty hfind
        cases hbuild : globals.backend.build t (Index.build t) t.layout r with
        | mk result b =>
            have hcompiled := hcompile result b hbuild
            cases result with
            | error err =>
                rw [hcompiled] at hunit
                cases hunit
            | ok generated =>
                obtain ⟨k, hk, hlayout⟩ := hserving.layout
                have hkept := globals.backend.verify_build t (Index.build t) t.layout r
                rw [hbuild] at hkept
                have hmade : (CompiledUnit.ofGenerated generated globals.bank).MadeFor e₁.graph
                    e₁.options.verify := by
                  refine ⟨t, globals.backend, b, generated, globals.bank,
                    hgraph ▸ hserving.graph, hserving.settled, hoptions ▸ hserving.verify, ?_, rfl⟩
                  rw [← hbuild]
                  congr 1
                  exact (Backend.unit_of_build hbuild).2.1
                rw [hcompiled]
                refine ⟨?_, ?_⟩
                · intro globals' hglobals'
                  obtain ⟨before, hbefore, rfl⟩ := Option.map_eq_some_iff.1 hglobals'
                  rw [hinstalled] at hbefore
                  cases hbefore
                  refine ⟨?_, hkept.trans (hserving.verify.trans (by rw [hoptions]))⟩
                  change b.Settled globals.layout
                  rw [hlayout]
                  exact (hserving.graph.trans hk.symm).settled (hserving.settled.build hbuild)
                · intro entry hentry
                  rcases List.mem_cons.1 hentry with rfl | hentry
                  · exact hmade
                  · exact h₁.units entry (List.mem_filter.1 hentry).1

/-! ## Whole runs -/

/-- An operation without a failure keeps the invariant. -/
theorem Unfailed.step (h : e.Unfailed) (he : e.Coherent) (hstep : InStep graphs e)
    (hapart : Graph.ToldApart graphs) {command : Command}
    (hlisted : ∀ g, command.graph? = some g → g ∈ graphs)
    (hanswers : failures (e.answers command) = 0) : (e.step command).Unfailed := by
  cases cacheStep he command with
  | drop _ globals units _ =>
      refine ⟨?_, ?_⟩
      · rw [globals]
        exact fun _ hglobals => by contradiction
      · rw [units]
        exact fun _ hentry => by contradiction
  | ensure hcommand =>
      subst hcommand
      obtain ⟨globals, e', hensure, hensured⟩ := exists_ensured he
      rw [Evaluator.step, hensure]
      exact (h.ensured he hensure hensured).1
  | ask r hrequest =>
      rw [step_of_request hrequest]
      by_cases hempty : r.outputs = []
      · rw [compile_of_empty hempty]
        exact h
      · cases hunit : (e.compile r).1 with
        | error err =>
            have hfailed : e.answers command = [.error err] := by
              unfold answers
              simp only [hrequest, if_neg hempty, hunit]
            rw [hfailed] at hanswers
            contradiction
        | ok unit => exact h.compile he hstep hapart hunit
  | keep version cache _ _ _ =>
      have hinstep := hstep.step hapart he hlisted
      have hagrees : e.graph.Agrees (e.step command).graph :=
        hapart.agrees_of_version hstep.graph hinstep.graph version.symm
      refine ⟨?_, ?_⟩
      · rw [cache, options_step he]
        exact h.globals
      · rw [cache, options_step he]
        exact fun entry hentry => (h.units entry hentry).twin hagrees.twins

theorem Unfailed.after (h : e.Unfailed) (he : e.Coherent) (hstep : InStep graphs e)
    (hapart : Graph.ToldApart graphs) {commands : List Command}
    (hlisted : ∀ command ∈ commands, ∀ g, command.graph? = some g → g ∈ graphs)
    (hnone : failures (e.outcomes commands) = 0) : (e.after commands).Unfailed := by
  induction commands generalizing e with
  | nil => exact h
  | cons command commands ih =>
      rw [List.forall_mem_cons] at hlisted
      rw [outcomes, failures_append, Nat.add_eq_zero_iff] at hnone
      exact ih (h.step he hstep hapart hlisted.1 hnone.1)
        (Changes.coherent (changes_step he command) he) (hstep.step hapart he hlisted.1) hlisted.2
        hnone.2

/-- In a run without failures the units in the cache were made for the present graph. -/
theorem unfailed_after {g : Graph} {commands : List Command}
    (hapart : Graph.ToldApart (graphsOf g commands)) (options : Options)
    (hnone : failures ((new g options).outcomes commands) = 0) :
    ((new g options).after commands).Unfailed :=
  (unfailed_new g options).after (coherent_new g options)
    (inStep_new (hapart.reachable g List.mem_cons_self) List.mem_cons_self options) hapart
    (fun _ hcommand _ hgraph => mem_graphsOf hcommand hgraph) hnone

end Evaluator

end Dataflow
