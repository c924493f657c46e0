import Dataflow.Proofs.Evaluator.Compiling
import Dataflow.Proofs.Evaluator.Writing
import Mathlib.Data.List.Induction

/-!
# What is cached is what was compiled

`Evaluator.cache_of_run` reads the cache and its counters off the operations that an evaluator
has gone through. A unit is cached exactly when it is of the present version and was returned
for its request since the version was last dropped; every request that names outputs counts as a
hit or a miss, the misses that return no unit fail, and the cells are compiled by the first
operation that needs them after they were dropped.
-/

namespace Dataflow

namespace Evaluator

variable {e e' : Evaluator} {commands : List Command} {command : Command} {v : Version}
  {r : UnitRequest} {unit : CompiledUnit}

/-! ## What an operation does to the cache -/

/-- The request that an operation brings to the cache. -/
def Command.request? : Command → Option UnitRequest
  | .compile r => some r
  | .evaluate outputs => some ⟨outputs, []⟩
  | .evaluateWith inputs _ outputs => some ⟨outputs, inputs⟩
  | _ => none

/-- The operation drops what was compiled for the version. -/
def Drops (e : Evaluator) (v : Version) : Command → Prop
  | .replaceGraph g => g.version ≠ e.version
  | .markStale => True
  | .invalidate w => w = v
  | _ => False

/-- The operation compiles the cells unless they are there: it asks for them or for a unit that
is not in the cache. -/
def NeedsCells (e : Evaluator) (command : Command) : Prop :=
  command = .ensureGlobals ∨ ∃ r, command.request? = some r ∧ r.outputs ≠ [] ∧
    e.cache.find? e.version r = none

theorem step_of_request (h : command.request? = some r) : e.step command = (e.compile r).2 := by
  cases command with
  | compile r => cases h; rfl
  | evaluate outputs => cases h; exact snd_evaluateRequest e _ _
  | evaluateWith inputs values outputs => cases h; exact snd_evaluateRequest e _ _
  | _ => contradiction

theorem Drops.request? (h : e.Drops v command) : command.request? = none := by
  cases command <;> first | rfl | contradiction

theorem Drops.not_needsCells (h : e.Drops v command) : ¬ e.NeedsCells command := by
  rintro (rfl | ⟨r, hr, -⟩)
  · contradiction
  · rw [h.request?] at hr
    contradiction

/-- What an operation can do to the cache. -/
inductive CacheStep (e : Evaluator) (command : Command) : Prop
  | drop (drops : e.Drops (e.step command).version command)
      (globals : (e.step command).cache.globals = none)
      (units : (e.step command).cache.units = [])
      (stats : (e.step command).cache.stats = e.cache.stats)
  | ensure (h : command = .ensureGlobals)
  | ask (r : UnitRequest) (h : command.request? = some r)
  | keep (version : (e.step command).version = e.version)
      (cache : (e.step command).cache = e.cache) (drops : ¬ e.Drops e.version command)
      (request : command.request? = none) (cells : ¬ e.NeedsCells command)

theorem cacheStep (he : e.Coherent) (command : Command) : e.CacheStep command := by
  have hkeep : ∀ command : Command, e.Keeps (e.step command) →
      (e.step command).cache = e.cache → ¬ e.Drops e.version command →
      command.request? = none → command ≠ .ensureGlobals → e.CacheStep command := by
    intro command hkeeps hcache hdrops hrequest hcells
    refine .keep (hkeeps.version he.remembered) hcache hdrops hrequest ?_
    rintro (h | ⟨r, hr, -⟩)
    · exact hcells h
    · rw [hrequest] at hr
      contradiction
  cases command with
  | replaceGraph g =>
      by_cases hversion : g.version = e.version
      · obtain ⟨banks, hframe⟩ := replaceGraph_frame_of_eq he hversion
        refine .keep ?_ ?_ (not_not.2 hversion) rfl ?_
        · rw [step, hframe]
          exact hversion
        · rw [step, hframe]
        · rintro (h | ⟨r, hr, -⟩) <;> contradiction
      · obtain ⟨hglobals, hunits⟩ := he.invalidate_version
        have hstep := congrArg Prod.snd (replaceGraph_of_ne hversion)
        refine .drop hversion ?_ ?_ ?_
        · rw [step, hstep]
          exact hglobals
        · rw [step, hstep]
          exact hunits
        · rw [step, hstep]
          rfl
  | markStale =>
      obtain ⟨hglobals, hunits⟩ := he.invalidate_version
      exact .drop trivial hglobals hunits rfl
  | invalidate w =>
      by_cases hw : w = e.version
      · subst hw
        obtain ⟨hglobals, hunits⟩ := he.invalidate_version
        exact .drop rfl hglobals hunits rfl
      · obtain ⟨hglobals, hunits⟩ := he.invalidate_of_ne hw
        refine .keep rfl ?_ hw rfl ?_
        · change (e.cache.invalidate w).2 = e.cache
          calc (e.cache.invalidate w).2
              = ⟨(e.cache.invalidate w).2.globals, (e.cache.invalidate w).2.units,
                  e.cache.stats⟩ := rfl
            _ = e.cache := by rw [hglobals, hunits]
        · rintro (h | ⟨r, hr, -⟩) <;> contradiction
  | ensureGlobals => exact .ensure rfl
  | compile r => exact .ask r rfl
  | evaluate outputs => exact .ask _ rfl
  | evaluateWith inputs values outputs => exact .ask _ rfl
  | index => exact hkeep _ (keeps_refresh e) (cache_refresh e) id rfl (by simp)
  | code r => exact hkeep _ (keeps_refresh e) (cache_refresh e) id rfl (by simp)
  | readInput port => exact hkeep _ (.refl e) rfl id rfl (by simp)
  | invoke unit values => exact hkeep _ (.refl e) rfl id rfl (by simp)
  | writeInput port value =>
      refine hkeep _ (keeps_writeInput e port value) ?_ id rfl (by simp)
      rcases writeInput_cases e port value with ⟨err, h⟩ | ⟨globals, cell, -, -, -, h⟩
      · rw [step, h]
      · rw [step, h]
        rfl
  | setInput port value =>
      obtain ⟨graph, banks, hframe⟩ := setInput_frame e port value
      refine hkeep _ (keeps_setInput e port value) ?_ id rfl (by simp)
      rw [step, hframe]
  | syncInputs =>
      obtain ⟨banks, hframe⟩ := syncInputs_frame e
      refine hkeep _ (keeps_syncInputs e) ?_ id rfl (by simp)
      rw [step, hframe]

/-! ## Operations since the last drop -/

/-- An operation of this sort was run, and none after it has dropped the version. -/
def Since (e : Evaluator) (sort : Evaluator → Command → Prop) (v : Version)
    (commands : List Command) : Prop :=
  ∃ before command rest, commands = before ++ command :: rest ∧ sort (e.after before) command ∧
    ∀ between drop later, rest = between ++ drop :: later →
      ¬ (e.after (before ++ command :: between)).Drops v drop

/-- The operation brings the request to the cache and gets the unit. -/
def Returns (r : UnitRequest) (unit : CompiledUnit) (e : Evaluator) (command : Command) : Prop :=
  command.request? = some r ∧ (e.compile r).1 = .ok unit

theorem not_since_nil {sort : Evaluator → Command → Prop} : ¬ e.Since sort v [] := by
  rintro ⟨before, command, rest, h, -⟩
  simp at h

theorem since_snoc {sort : Evaluator → Command → Prop} :
    e.Since sort v (commands ++ [command]) ↔ sort (e.after commands) command ∨
      e.Since sort v commands ∧ ¬ (e.after commands).Drops v command := by
  constructor
  · rintro ⟨before, first, rest, hsplit, hsort, hkept⟩
    rcases List.eq_nil_or_concat rest with rfl | ⟨rest, last, rfl⟩
    · obtain ⟨rfl, hlast⟩ := List.append_inj' hsplit rfl
      cases hlast
      exact .inl hsort
    · rw [List.concat_eq_append] at hsplit hkept
      rw [← List.cons_append, ← List.append_assoc] at hsplit
      obtain ⟨rfl, hlast⟩ := List.append_inj' hsplit rfl
      cases hlast
      refine .inr ⟨⟨before, first, rest, rfl, hsort, ?_⟩, hkept rest command [] rfl⟩
      rintro between drop later rfl
      exact hkept between drop (later ++ [command]) (by simp)
  · rintro (hsort | ⟨⟨before, first, rest, rfl, hsort, hkept⟩, hdrops⟩)
    · exact ⟨commands, command, [], rfl, hsort, fun between drop later h => by simp at h⟩
    · refine ⟨before, first, rest ++ [command], by simp, hsort, ?_⟩
      intro between drop later hsplit
      rcases List.eq_nil_or_concat later with rfl | ⟨later, last, rfl⟩
      · obtain ⟨rfl, hlast⟩ := List.append_inj' hsplit rfl
        cases hlast
        exact hdrops
      · rw [List.concat_eq_append, ← List.cons_append, ← List.append_assoc] at hsplit
        obtain ⟨rfl, -⟩ := List.append_inj' hsplit rfl
        exact hkept between drop later rfl

/-! ## Units in the cache -/

theorem Cache.lookup_filter_ne {units : List (CacheKey × CompiledUnit)} {key key' : CacheKey}
    (h : key ≠ key') : (units.filter fun entry => entry.1 != key').lookup key =
      units.lookup key := by
  induction units with
  | nil => rfl
  | cons entry units ih =>
      by_cases hentry : entry.1 = key'
      · have hne : (key == entry.1) = false := by simpa [hentry] using h
        rw [List.filter_cons_of_neg (by simp [hentry]), ih, List.lookup_cons, hne]
      · rw [List.filter_cons_of_pos (by simp [hentry]), List.lookup_cons, List.lookup_cons, ih]

/-- After a request the cache holds what it held before, and the unit that was returned. -/
theorem find?_compile (he : e.Coherent) (r r' : UnitRequest) (unit : CompiledUnit) :
    (e.compile r).2.cache.find? e.version r' = some unit ↔
      r = r' ∧ (e.compile r).1 = .ok unit ∨ e.cache.find? e.version r' = some unit := by
  have hasks := asks_compile he r
  generalize e.compile r = outcome at hasks ⊢
  obtain ⟨result, e'⟩ := outcome
  cases hasks with
  | refused _ => simp
  | found _ hit =>
      change e.cache.find? e.version r' = some unit ↔ _
      refine ⟨.inr, ?_⟩
      rintro (⟨rfl, hunit⟩ | h)
      · cases hunit
        exact hit
      · exact h
  | failed _ _ ensured _ =>
      have hunits := ensured.units
      unfold Cache.find?
      simp only [Cache.setBackend, hunits]
      simp [counted]
  | @built globals e₁ generated backend _ miss ensured build =>
      obtain ⟨hversion, hrequest, -⟩ := Backend.unit_of_build build
      have hunits := ensured.units
      have hkey : (CompiledUnit.ofGenerated generated globals.bank).key = (e.version, r) := by
        rw [ensured.graph, counted_graph] at hversion
        rw [← hrequest]
        exact congrArg (·, generated.request) hversion
      unfold Cache.find? at miss ⊢
      simp only [Cache.insert, Cache.setBackend, hunits, hkey, Except.ok.injEq]
      by_cases hr : r = r'
      · subst hr
        simp [miss]
      · have hne : ((e.version, r') == (e.version, r)) = false := by simpa using Ne.symm hr
        rw [List.lookup_cons, hne, Cache.lookup_filter_ne (by simpa using Ne.symm hr)]
        simp [hr, counted]

theorem version_and_outputs_of_find? (he : e.Coherent) (h : e.cache.find? v r = some unit) :
    v = e.version ∧ r.outputs ≠ [] := by
  obtain ⟨hkey, hversion, houtputs, -⟩ := he.units _ (mem_of_find? h)
  obtain ⟨hv, hr⟩ := Prod.mk.inj hkey
  exact ⟨hv.trans hversion, hr ▸ houtputs⟩

/-- In the run of one operation more, the units of the present version are those of the run
before, unless they were dropped, and the one that was returned. -/
theorem find?_step (he : e.Coherent) (command : Command) (r : UnitRequest)
    (unit : CompiledUnit) :
    (e.step command).cache.find? (e.step command).version r = some unit ↔
      Returns r unit e command ∨ e.cache.find? (e.step command).version r = some unit ∧
        ¬ e.Drops (e.step command).version command := by
  cases cacheStep he command with
  | drop drops _ units _ =>
      have hnone : ¬ Returns r unit e command := by
        rintro ⟨hr, -⟩
        rw [drops.request?] at hr
        contradiction
      unfold Cache.find?
      rw [units]
      simp [hnone, drops]
  | ensure h =>
      subst h
      obtain ⟨globals, e', hensure, hensured⟩ := exists_ensured he
      have hnone : ¬ Returns r unit e .ensureGlobals := fun ⟨hr, _⟩ => by contradiction
      have hunits := hensured.units
      unfold Cache.find?
      rw [step, hensure]
      simp [hnone, hunits, Drops]
  | ask q h =>
      have hstep := step_of_request (e := e) h
      have hversion : (e.step command).version = e.version := by
        unfold version
        rw [hstep, (compiles_compile he q).graph]
      have hdrops : ¬ e.Drops e.version command := by
        intro hdrops
        rw [hdrops.request?] at h
        contradiction
      rw [hversion, hstep, find?_compile he]
      unfold Returns
      simp only [h, Option.some.injEq, hdrops, not_false_eq_true, and_true]
      by_cases hr : q = r
      · rw [hr]
      · simp [hr]
  | keep version cache drops request _ =>
      have hnone : ¬ Returns r unit e command := by
        rintro ⟨hr, -⟩
        rw [request] at hr
        contradiction
      rw [version, cache]
      simp [hnone, drops]

/-- Only an operation that drops all versions brings another one. -/
theorem version_step (he : e.Coherent)
    (h : ¬ e.Drops (e.step command).version command) : (e.step command).version = e.version := by
  cases cacheStep he command with
  | drop drops => exact absurd drops h
  | ensure h =>
      subst h
      obtain ⟨globals, e', hensure, hensured⟩ := exists_ensured he
      unfold version
      rw [step, hensure, hensured.graph]
  | ask r h =>
      unfold version
      rw [step_of_request h, (compiles_compile he r).graph]
  | keep version => exact version

theorem cached_iff_since (g : Graph) (options : Options) (commands : List Command)
    (v : Version) (r : UnitRequest) (unit : CompiledUnit) :
    ((new g options).after commands).cache.find? v r = some unit ↔
      v = ((new g options).after commands).version ∧
        (new g options).Since (Returns r unit) v commands := by
  induction commands using List.reverseRecOn generalizing v with
  | nil => exact ⟨fun h => by contradiction, fun h => absurd h.2 not_since_nil⟩
  | append_singleton commands command ih =>
      have he := coherent_after g options commands
      have he' := coherent_after g options (commands ++ [command])
      rw [after_snoc] at he' ⊢
      generalize hstep : (((new g options).after commands).step command).version = v' at *
      by_cases hv : v = v'
      · subst hv
        have hfind := find?_step he command r unit
        rw [hstep] at hfind
        rw [hfind, ih, since_snoc]
        simp only [true_and]
        refine or_congr_right (and_congr_left fun hdrops => ?_)
        have hversion := version_step he (hstep.symm ▸ hdrops)
        rw [hstep] at hversion
        simp [hversion]
      · refine ⟨fun h => ?_, fun h => absurd h.1 hv⟩
        exact absurd ((version_and_outputs_of_find? he' h).1.trans hstep) hv

/-! ## Counters -/

/-- What an operation gets for a request that names outputs. -/
def answers (e : Evaluator) (command : Command) : List (Except UnitError CompiledUnit) :=
  match command.request? with
  | some r => if r.outputs = [] then [] else [(e.compile r).1]
  | none => []

/-- What the operations of a run get for their requests, one after the other. -/
def outcomes (e : Evaluator) : List Command → List (Except UnitError CompiledUnit)
  | [] => []
  | command :: commands => e.answers command ++ (e.step command).outcomes commands

/-- How many of the requests have failed. -/
def failures (results : List (Except UnitError CompiledUnit)) : Nat :=
  results.countP fun result => !result.isOk

theorem Ensured.stats {globals : CompiledGlobals} (h : e.Ensured globals e') :
    e'.cache.stats =
      if e.cache.globals = none then e.cache.stats.countGlobals else e.cache.stats := by
  cases hglobals : e.cache.globals with
  | none =>
      rw [if_pos rfl]
      exact (h.fresh hglobals).2.2.2
  | some before =>
      rw [if_neg nofun]
      exact (h.kept before hglobals).2.2

/-- The counters before and after an operation with these answers, which compiles the cells or
not. -/
structure Counts (before after : CacheStats) (results : List (Except UnitError CompiledUnit))
    (cells : Prop) : Prop where
  lookups : after.hits + after.misses = before.hits + before.misses + results.length
  compilations : after.misses + before.compilations =
    before.misses + after.compilations + failures results
  compiled : cells → after.globalsCompilations = before.globalsCompilations + 1
  kept : ¬ cells → after.globalsCompilations = before.globalsCompilations

theorem Counts.refl (s : CacheStats) {cells : Prop} (h : ¬ cells) : Counts s s [] cells :=
  ⟨rfl, rfl, fun hcells => absurd hcells h, fun _ => rfl⟩

theorem needsCells_iff_of_request (h : command.request? = some r) :
    e.NeedsCells command ↔ r.outputs ≠ [] ∧ e.cache.find? e.version r = none := by
  unfold NeedsCells
  constructor
  · rintro (rfl | ⟨q, hq, houtputs, hmiss⟩)
    · contradiction
    · rw [h] at hq
      cases hq
      exact ⟨houtputs, hmiss⟩
  · rintro ⟨houtputs, hmiss⟩
    exact .inr ⟨r, h, houtputs, hmiss⟩

/-- A miss is counted, and its compilation if there is one; the cells are compiled with it
where they are missing. -/
theorem Ensured.counts_miss {globals : CompiledGlobals}
    (h : (e.counted e.cache.stats.countMiss).Ensured globals e')
    {result : Except UnitError CompiledUnit} {stats : CacheStats}
    (hstats : stats = { e'.cache.stats with
      compilations := e'.cache.stats.compilations + if result.isOk then 1 else 0 })
    {cells : Prop} (hcells : cells) :
    Counts e.cache.stats stats [result] (cells ∧ e.cache.globals = none) := by
  have hensured := h.stats
  change _ = if e.cache.globals = none then e.cache.stats.countMiss.countGlobals
    else e.cache.stats.countMiss at hensured
  subst hstats
  have hfailed : failures [result] = if result.isOk then 0 else 1 := by
    cases result <;> rfl
  by_cases hnone : e.cache.globals = none
  · rw [if_pos hnone] at hensured
    rw [hensured]
    refine ⟨?_, ?_, fun _ => rfl, fun h => absurd ⟨hcells, hnone⟩ h⟩
    · exact (Nat.add_assoc _ _ 1).symm
    · rw [hfailed]
      change e.cache.stats.misses + 1 + e.cache.stats.compilations =
        e.cache.stats.misses + (e.cache.stats.compilations + _) + _
      split <;> omega
  · rw [if_neg hnone] at hensured
    rw [hensured]
    refine ⟨?_, ?_, fun h => absurd h.2 hnone, fun _ => rfl⟩
    · exact (Nat.add_assoc _ _ 1).symm
    · rw [hfailed]
      change e.cache.stats.misses + 1 + e.cache.stats.compilations =
        e.cache.stats.misses + (e.cache.stats.compilations + _) + _
      split <;> omega

theorem counts_compile (he : e.Coherent) (h : command.request? = some r) :
    Counts e.cache.stats (e.compile r).2.cache.stats (e.answers command)
      (e.NeedsCells command ∧ e.cache.globals = none) := by
  have hasks := asks_compile he r
  unfold answers
  rw [needsCells_iff_of_request h]
  simp only [h]
  generalize e.compile r = outcome at hasks ⊢
  obtain ⟨result, e'⟩ := outcome
  cases hasks with
  | refused empty =>
      rw [if_pos empty]
      exact .refl _ fun hcells => hcells.1.1 empty
  | found outputs hit =>
      rw [if_neg outputs]
      refine ⟨?_, rfl, ?_, fun _ => rfl⟩
      · change e.cache.stats.hits + 1 + e.cache.stats.misses = _
        rw [List.length_singleton]
        omega
      · rintro ⟨⟨-, hmiss⟩, -⟩
        rw [hit] at hmiss
        contradiction
  | failed outputs miss ensured _ =>
      rw [if_neg outputs]
      refine ensured.counts_miss ?_ (And.intro outputs miss)
      rfl
  | built outputs miss ensured _ =>
      rw [if_neg outputs]
      refine ensured.counts_miss ?_ (And.intro outputs miss)
      rfl

theorem counts_step (he : e.Coherent) (command : Command) :
    Counts e.cache.stats (e.step command).cache.stats (e.answers command)
      (e.NeedsCells command ∧ e.cache.globals = none) := by
  have hnone : command.request? = none → e.answers command = [] := by
    intro hrequest
    unfold answers
    rw [hrequest]
  cases cacheStep he command with
  | drop drops _ _ stats =>
      rw [stats, hnone drops.request?]
      exact .refl _ fun h => drops.not_needsCells h.1
  | ensure h =>
      subst h
      obtain ⟨globals, e', hensure, hensured⟩ := exists_ensured he
      have hneeds : e.NeedsCells .ensureGlobals := .inl rfl
      rw [step, hensure, hnone rfl, hensured.stats]
      split
      · rename_i hglobals
        exact ⟨rfl, rfl, fun _ => rfl, fun h => absurd ⟨hneeds, hglobals⟩ h⟩
      · rename_i hglobals
        exact .refl _ fun h => hglobals h.2
  | ask r h =>
      rw [step_of_request h]
      exact counts_compile he h
  | keep _ cache _ request cells =>
      rw [cache, hnone request]
      exact .refl _ fun h => cells h.1

theorem outcomes_snoc (e : Evaluator) (commands : List Command) (command : Command) :
    e.outcomes (commands ++ [command]) =
      e.outcomes commands ++ (e.after commands).answers command := by
  induction commands generalizing e with
  | nil => exact List.append_nil _
  | cons first commands ih =>
      rw [List.cons_append, outcomes, ih, outcomes, List.append_assoc]
      rfl

theorem failures_append (results results' : List (Except UnitError CompiledUnit)) :
    failures (results ++ results') = failures results + failures results' :=
  List.countP_append

/-- Each request that names outputs is a hit or a miss, and each miss fails or compiles. -/
theorem lookups_of_run (g : Graph) (options : Options) (commands : List Command) :
    ((new g options).after commands).cache.stats.hits +
        ((new g options).after commands).cache.stats.misses =
      ((new g options).outcomes commands).length ∧
    ((new g options).after commands).cache.stats.misses =
      ((new g options).after commands).cache.stats.compilations +
        failures ((new g options).outcomes commands) := by
  induction commands using List.reverseRecOn with
  | nil => exact ⟨rfl, rfl⟩
  | append_singleton commands command ih =>
      have hcounts := counts_step (coherent_after g options commands) command
      rw [after_snoc, outcomes_snoc, List.length_append, failures_append]
      have hlookups := hcounts.lookups
      have hcompilations := hcounts.compilations
      omega

/-! ## Cells -/

theorem installed_compile (he : e.Coherent) (r : UnitRequest) :
    (e.compile r).2.cache.globals ≠ none ↔
      r.outputs ≠ [] ∧ e.cache.find? e.version r = none ∨ e.cache.globals ≠ none := by
  have hasks := asks_compile he r
  generalize e.compile r = outcome at hasks ⊢
  obtain ⟨result, e'⟩ := outcome
  cases hasks with
  | refused empty => simp [empty]
  | found outputs hit =>
      change e.cache.globals ≠ none ↔ _
      simp [hit]
  | failed outputs miss ensured _ =>
      simp [Cache.setBackend, ensured.installed, outputs, miss]
  | built outputs miss ensured _ =>
      simp [Cache.insert, Cache.setBackend, ensured.installed, outputs, miss]

/-- The cells are compiled once an operation has needed them, until they are dropped. -/
theorem installed_step (he : e.Coherent) (command : Command) :
    (e.step command).cache.globals ≠ none ↔ e.NeedsCells command ∨
      e.cache.globals ≠ none ∧ ¬ e.Drops (e.step command).version command := by
  cases cacheStep he command with
  | drop drops globals _ _ => simp [globals, drops, drops.not_needsCells]
  | ensure h =>
      subst h
      obtain ⟨globals, e', hensure, hensured⟩ := exists_ensured he
      have hneeds : e.NeedsCells .ensureGlobals := .inl rfl
      rw [step, hensure, hensured.installed]
      simp [hneeds]
  | ask r h =>
      have hdrops : ¬ e.Drops (e.step command).version command := by
        intro hdrops
        rw [hdrops.request?] at h
        contradiction
      rw [step_of_request h] at hdrops ⊢
      rw [needsCells_iff_of_request h, installed_compile he]
      simp [hdrops]
  | keep version cache drops _ cells => simp [cache, version, drops, cells]

theorem installed_iff_since (g : Graph) (options : Options) (commands : List Command) :
    ((new g options).after commands).cache.globals ≠ none ↔
      (new g options).Since NeedsCells ((new g options).after commands).version commands := by
  induction commands using List.reverseRecOn with
  | nil => exact ⟨fun h => absurd rfl h, fun h => absurd h not_since_nil⟩
  | append_singleton commands command ih =>
      have he := coherent_after g options commands
      rw [after_snoc, installed_step he, since_snoc, ih]
      refine or_congr_right (and_congr_left fun hdrops => ?_)
      rw [version_step he hdrops]

/-- A request whose unit is in the cache is a hit. -/
theorem compile_of_find? (he : e.Coherent) (h : e.cache.find? v r = some unit) :
    e.compile r = (.ok unit, e.counted e.cache.stats.countHit) := by
  obtain ⟨rfl, houtputs⟩ := version_and_outputs_of_find? he h
  exact compile_of_hit houtputs h

/-- The cache and its counters after a run. A unit is cached for a version and a request exactly
when the version is the present one and the unit was returned for the request since the version
was last dropped; the request is then a hit. The look-ups are the requests that name outputs,
the misses beyond the compilations are those that have failed, and an operation compiles the
cells exactly when it needs them first after they were dropped. -/
theorem cache_of_run (g : Graph) (options : Options) (commands : List Command) :
    (∀ v r unit, ((new g options).after commands).cache.find? v r = some unit ↔
      v = ((new g options).after commands).version ∧
        (new g options).Since (Returns r unit) v commands) ∧
    (∀ v r unit, ((new g options).after commands).cache.find? v r = some unit →
      ((new g options).after commands).compile r = (.ok unit, ((new g options).after
        commands).counted ((new g options).after commands).cache.stats.countHit)) ∧
    ((new g options).after commands).cache.stats.hits +
        ((new g options).after commands).cache.stats.misses =
      ((new g options).outcomes commands).length ∧
    ((new g options).after commands).cache.stats.misses =
      ((new g options).after commands).cache.stats.compilations +
        failures ((new g options).outcomes commands) ∧
    ∀ command,
      (((new g options).after commands).NeedsCells command ∧
          ¬ (new g options).Since NeedsCells ((new g options).after commands).version commands →
        ((new g options).after (commands ++ [command])).cache.stats.globalsCompilations =
          ((new g options).after commands).cache.stats.globalsCompilations + 1) ∧
      (¬ (((new g options).after commands).NeedsCells command ∧
          ¬ (new g options).Since NeedsCells ((new g options).after commands).version commands) →
        ((new g options).after (commands ++ [command])).cache.stats.globalsCompilations =
          ((new g options).after commands).cache.stats.globalsCompilations) := by
  have he := coherent_after g options commands
  obtain ⟨hlookups, hmisses⟩ := lookups_of_run g options commands
  refine ⟨cached_iff_since g options commands, fun v r unit => compile_of_find? he, hlookups,
    hmisses, ?_⟩
  intro command
  have hcounts := counts_step he command
  rw [← installed_iff_since, not_not, after_snoc]
  exact ⟨hcounts.compiled, hcounts.kept⟩

end Evaluator

end Dataflow
