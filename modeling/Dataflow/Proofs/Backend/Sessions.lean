import Dataflow.Proofs.Backend.Building

/-!
# Units of one backend

A session asks one backend for units, of any graphs and requests, and has units that came of it
compiled, each whenever it likes and as often as it likes. `Session.Kept` is what every step keeps:
the functions of a unit bear the unit's number, and what is defined belongs to a unit that was
handed in. So units never clash, and one that has not been handed in yet is always new to the
backend: `Session.units_never_clash`.
-/

namespace Dataflow

open Ir

/-- What a backend is asked to do: to generate a unit, or to compile the unit at this place among
those generated. -/
inductive Session.Step
  | generate (g : Graph) (ix : Index) (storage : StorageLayout) (r : UnitRequest)
  | compileUnit (place : Nat)
deriving DecidableEq, Repr

structure Session where
  backend : Backend
  units : List GeneratedUnit
  /-- The places of the units that have been handed in to be compiled. -/
  handedIn : List Nat
deriving DecidableEq, Repr

namespace Session

/-- The session after a step, whether the backend has succeeded or failed. -/
def step (s : Session) : Step → Session
  | .generate g ix storage r =>
      match s.backend.generate g ix storage r with
      | (.ok unit, b) => { s with backend := b, units := s.units ++ [unit] }
      | (.error _, b) => { s with backend := b }
  | .compileUnit place =>
      match s.units[place]? with
      | some unit =>
          { s with backend := (s.backend.compileUnit unit).2, handedIn := place :: s.handedIn }
      | none => s

/-- A session with a backend that has just compiled the cells of a layout. -/
def start (options : Options) (layout : StorageLayout) : Session :=
  ⟨((Backend.new options).compileGlobals layout).2, [], []⟩

def run (options : Options) (layout : StorageLayout) (steps : List Step) : Session :=
  steps.foldl step (start options layout)

/-- Units are numbered by their places. Their functions bear the number, are declared, and are all
that has been defined, as far as the units have been handed in. -/
structure Kept (s : Session) : Prop where
  numbered : s.units.length = s.backend.sequence
  names : ∀ u ∈ s.units, (u.functions.map Function.name).Nodup
  labels : ∀ k u, s.units[k]? = some u → ∀ f ∈ u.functions,
    ∃ r rest, f.name = unitLabel (k + 1) r ++ "::" ++ rest
  declared : ∀ u ∈ s.units, ∀ f ∈ u.functions, f.DeclaredIn s.backend.table
  defined : ∀ id ∈ s.backend.table.definedFunctions,
    ∃ k ∈ s.handedIn, ∃ u, s.units[k]? = some u ∧ ∃ f ∈ u.functions, f.id = id

variable {s : Session}

theorem eq_or_of_getElem?_concat {α : Type} {xs : List α} {x a : α} {k : Nat}
    (h : (xs ++ [x])[k]? = some a) : xs[k]? = some a ∨ k = xs.length ∧ a = x := by
  rcases Nat.lt_trichotomy k xs.length with hlt | rfl | hgt
  · exact .inl ((List.getElem?_append_left hlt).symm.trans h)
  · rw [List.getElem?_concat_length] at h
    cases h
    exact .inr ⟨rfl, rfl⟩
  · rw [List.getElem?_eq_none (by simpa using Nat.succ_le_of_lt hgt)] at h
    contradiction

/-! ## Every step keeps units apart -/

theorem kept_start (options : Options) (layout : StorageLayout) : (start options layout).Kept where
  numbered := rfl
  names := by
    intro u hu
    contradiction
  labels := by
    intro k u hu
    contradiction
  declared := by
    intro u hu
    contradiction
  defined := by
    have hnone : (start options layout).backend.table.definedFunctions = [] :=
      Backend.definedFunctions_defineCells SymbolTable.empty layout.cells
    rw [hnone]
    intro id hid
    contradiction

/-- Declaring more keeps the units apart. -/
theorem Kept.declare (h : s.Kept) {t : SymbolTable} (hextends : s.backend.table.Extends t)
    (hdefined : t.definedFunctions = s.backend.table.definedFunctions) :
    Kept { s with backend := { s.backend with table := t } } where
  numbered := h.numbered
  names := h.names
  labels := h.labels
  declared := fun u hu f hf => (h.declared u hu f hf).mono hextends
  defined := by
    intro id hid
    rw [hdefined] at hid
    exact h.defined id hid

theorem Kept.generate (h : s.Kept) (g : Graph) (ix : Index) (storage : StorageLayout)
    (r : UnitRequest) : (s.step (.generate g ix storage r)).Kept := by
  have hgrows := declares_generateUnit g ix storage r (s.backend.sequence + 1) s.backend.table
  unfold step Backend.generate
  simp only
  cases hrun : (generateUnit g ix storage r (s.backend.sequence + 1)).run s.backend.table with
  | mk result t =>
      rw [hrun] at hgrows
      have hkept := h.declare hgrows.extends hgrows.definedFunctions
      cases result with
      | error e => exact hkept
      | ok unit =>
          obtain ⟨hnames, hlabels⟩ := Backend.names_generateUnit hrun
          have hdeclared := declaredIn_of_generateUnit hrun
          refine ⟨?_, ?_, ?_, ?_, ?_⟩
          · change (s.units ++ [unit]).length = s.backend.sequence + 1
            rw [List.length_append, h.numbered, List.length_singleton]
          · intro u hu
            rcases List.mem_append.1 hu with hu | hu
            · exact h.names u hu
            · rw [List.mem_singleton.1 hu]
              exact hnames
          · intro k u hu f hf
            rcases eq_or_of_getElem?_concat hu with hu | ⟨rfl, rfl⟩
            · exact h.labels k u hu f hf
            · obtain ⟨rest, hname⟩ := hlabels f hf
              rw [h.numbered]
              exact ⟨r, rest, hname⟩
          · intro u hu f hf
            rcases List.mem_append.1 hu with hu | hu
            · exact hkept.declared u hu f hf
            · rw [List.mem_singleton.1 hu] at hf
              exact (hdeclared f hf).1
          · intro id hid
            obtain ⟨k, hk, u, hu, f, hf, hid⟩ := hkept.defined id hid
            have hplace := (List.getElem?_eq_some_iff.1 hu).1
            exact ⟨k, hk, u, (List.getElem?_append_left hplace).trans hu, f, hf, hid⟩


theorem Kept.compileUnit (h : s.Kept) (place : Nat) : (s.step (.compileUnit place)).Kept := by
  unfold step
  simp only
  split
  · rename_i unit hunit
    obtain ⟨defined, hframe, -⟩ := Backend.compileUnit_frame s.backend unit
    have hextends := Backend.extends_compileUnit s.backend unit
    refine ⟨?_, h.names, h.labels, fun u hu f hf => (h.declared u hu f hf).mono hextends, ?_⟩
    · simp only [hframe]
      exact h.numbered
    · intro id hid
      rcases Backend.mem_definedFunctions_compileUnit hid with hid | ⟨f, hf, hid⟩
      · obtain ⟨k, hk, hu⟩ := h.defined id hid
        exact ⟨k, List.mem_cons_of_mem _ hk, hu⟩
      · exact ⟨place, List.mem_cons_self, unit, hunit, f, hf, hid⟩
  · exact h

theorem Kept.step (h : s.Kept) (step : Step) : (s.step step).Kept := by
  cases step with
  | generate g ix storage r => exact h.generate g ix storage r
  | compileUnit place => exact h.compileUnit place

theorem Kept.foldl (h : s.Kept) (steps : List Step) : (steps.foldl Session.step s).Kept := by
  induction steps generalizing s with
  | nil => exact h
  | cons step steps ih => exact ih (h.step step)

theorem kept_run (options : Options) (layout : StorageLayout) (steps : List Step) :
    (run options layout steps).Kept :=
  (kept_start options layout).foldl steps

/-! ## Units do not clash -/

/-- Functions of one name belong to one unit. -/
theorem Kept.place_eq (h : s.Kept) {j k : Nat} {u v : GeneratedUnit} (hu : s.units[j]? = some u)
    (hv : s.units[k]? = some v) {f f' : Function} (hf : f ∈ u.functions) (hf' : f' ∈ v.functions)
    (hname : f.name = f'.name) : j = k := by
  obtain ⟨q, rest, hq⟩ := h.labels j u hu f hf
  obtain ⟨r, rest', hr⟩ := h.labels k v hv f' hf'
  rw [hq, hr, String.append_assoc, String.append_assoc] at hname
  exact Nat.succ.inj (sequence_eq_of_label hname)

/-- No function of a unit that has not been handed in is defined. -/
theorem Kept.not_defined (h : s.Kept) {k : Nat} {u : GeneratedUnit} (hu : s.units[k]? = some u)
    (hk : k ∉ s.handedIn) {f : Function} (hf : f ∈ u.functions) :
    f.id ∉ s.backend.table.definedFunctions := by
  intro hmem
  obtain ⟨j, hj, v, hv, f', hf', hid⟩ := h.defined _ hmem
  have hdeclared : s.backend.table.signatures[f.id]? = some (f.name, f.params) :=
    h.declared u (List.mem_of_getElem? hu) f hf
  have hdeclared' : s.backend.table.signatures[f'.id]? = some (f'.name, f'.params) :=
    h.declared v (List.mem_of_getElem? hv) f' hf'
  rw [hid, hdeclared] at hdeclared'
  have hname : f.name = f'.name := congrArg Prod.fst (Option.some.inj hdeclared')
  exact hk (h.place_eq hu hv hf hf' hname ▸ hj)

/-- Whatever a backend has been asked for, the names in one unit are distinct and those of two
units have nothing in common. A unit that has not been handed in is compiled unless it fails the
check of its code: nothing of it is defined yet. -/
theorem units_never_clash (options : Options) (layout : StorageLayout) (steps : List Step) :
    (∀ (j k : Nat) (u v : GeneratedUnit), (run options layout steps).units[j]? = some u →
      (run options layout steps).units[k]? = some v → j ≠ k →
      (u.functions.map Function.name).Disjoint (v.functions.map Function.name)) ∧
    (∀ u ∈ (run options layout steps).units, (u.functions.map Function.name).Nodup) ∧
    ∀ (k : Nat) (u : GeneratedUnit), (run options layout steps).units[k]? = some u →
      k ∉ (run options layout steps).handedIn →
      (∀ name, ((run options layout steps).backend.compileUnit u).1 ≠
        .error (.symbol (.duplicateDefinition name))) ∧
      (((run options layout steps).backend.compileUnit u).1 = .ok () ∨
        ∃ f ∈ u.functions, f.wellTyped = false ∧
          ((run options layout steps).backend.compileUnit u).1 =
            .error (.verification f.name)) := by
  have hkept := kept_run options layout steps
  generalize run options layout steps = s at hkept
  refine ⟨?_, hkept.names, ?_⟩
  · intro j k u v hu hv hne name hname hname'
    obtain ⟨f, hf, rfl⟩ := List.mem_map.1 hname
    obtain ⟨f', hf', hsame⟩ := List.mem_map.1 hname'
    exact hne (hkept.place_eq hu hv hf hf' hsame.symm)
  · intro k u hu hk
    have hmem := List.mem_of_getElem? hu
    have hids := Backend.nodup_ids (hkept.names u hmem) (hkept.declared u hmem)
    rcases Backend.compileUnit_of_new hids fun f hf => hkept.not_defined hu hk hf with
      hok | ⟨-, f, hf, hill, hfails⟩
    · rw [hok]
      exact ⟨by simp, .inl rfl⟩
    · rw [hfails]
      exact ⟨by simp, .inr ⟨f, hf, hill, rfl⟩⟩

end Session

/-! ## Nodes that are called like the entry function

Both nodes bear the name of the entry function once their quotation marks are dropped.
-/

namespace EntryNames

def constant (name : String) : Node :=
  ⟨name, .constant (.i32 7), [], [⟨"value", .i32, none⟩]⟩

def graph : Graph := ⟨"entry names", [constant "entry", constant "\"entry\""], [], none⟩

def request : UnitRequest := ⟨[⟨"entry", "value"⟩, ⟨"\"entry\"", "value"⟩], []⟩

def plan : UnitPlan where
  version := graph.version
  outputs := [(⟨"entry", "value"⟩, .i32), (⟨"\"entry\"", "value"⟩, .i32)]
  outputLayout := ⟨[⟨.i32, 0⟩, ⟨.i32, 4⟩], 8, 4⟩
  bindings := ⟨[]⟩
  inputLayout := ⟨[], 0, 1⟩
  order := graph.nodes

theorem order_eq : evaluationOrder graph (Index.build graph) [] ["entry", "\"entry\""] =
    .ok graph.nodes := by
  have hedges : (Index.build graph).edges = [] := by decide +kernel
  have hnodes : (Index.build graph).nodes = ["entry", "\"entry\""] := by decide +kernel
  simp only [evaluationOrder, scheduleRoots, Index.contains, hedges, Schedule.needs_nil, hnodes,
    ← Option.not_isSome]
  cbv

theorem plan_made : UnitPlan.make graph (Index.build graph) graph.layout request = .ok plan := by
  refine UnitPlan.make_of_parts rfl (by simp [request]) ?_ ?_ rfl rfl order_eq
  · decide +kernel
  · decide

/-- Two units are generated and the second one is compiled. -/
def steps : List Session.Step :=
  [.generate graph (Index.build graph) graph.layout request,
    .generate graph (Index.build graph) graph.layout request, .compileUnit 1]

theorem run_steps :
    ((Session.run {} graph.layout steps).units.map fun u => u.functions.map Function.name) =
      (["nodejit1[entry.value+entry.value]::entry", "nodejit2[entry.value+entry.value]::entry"].map
        fun name => [name ++ " #2", name ++ " #3", name]) ∧
      (Session.run {} graph.layout steps).handedIn = [1] := by
  simp only [Session.run, steps, List.foldl, Session.step, Backend.generate, generateUnit,
    plan_made]
  decide +kernel

theorem units_never_clash_entryNames : ∃ u v,
    (Session.run {} graph.layout steps).units = [u, v] ∧
    (u.functions.map Function.name).Disjoint (v.functions.map Function.name) ∧
    (v.functions.map Function.name).Nodup ∧
    ∀ name, ((Session.run {} graph.layout steps).backend.compileUnit u).1 ≠
      .error (.symbol (.duplicateDefinition name)) := by
  obtain ⟨hdisjoint, hnodup, hcompiles⟩ := Session.units_never_clash {} graph.layout steps
  obtain ⟨u, v, hunits⟩ : ∃ u v, (Session.run {} graph.layout steps).units = [u, v] := by
    refine List.length_eq_two.1 ?_
    have hlength := congrArg List.length run_steps.1
    rwa [List.length_map, List.length_map] at hlength
  have hu : (Session.run {} graph.layout steps).units[0]? = some u := by rw [hunits]; rfl
  have hv : (Session.run {} graph.layout steps).units[1]? = some v := by rw [hunits]; rfl
  refine ⟨u, v, hunits, hdisjoint 0 1 u v hu hv (by decide), hnodup v ?_, ?_⟩
  · exact List.mem_of_getElem? hv
  · exact (hcompiles 0 u hu (by rw [run_steps.2]; decide)).1

end EntryNames

end Dataflow
