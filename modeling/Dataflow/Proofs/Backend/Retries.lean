import Dataflow.Proofs.Backend.Independence
import Dataflow.Proofs.SymbolTable.Redeclaration

/-!
# Generating again what has failed

A generation that fails leaves declarations behind. When it is tried again each of them is met
settled, up to the step at which it fails again: `Backend.generate_retries`. So the first failure
is the last one that changes the backend, and the number of the unit stays free for the next
generation that succeeds.
-/

namespace Dataflow

open Ir

/-! ## Computations that can be repeated -/

namespace Generation

variable {α β : Type}

/-- Whatever table the computation starts from, what it declares is settled where it ends. A
success is repeated wherever that is settled, a failure over the table that it has left. -/
structure Repeatable (x : Generation α) : Prop where
  keeps : ∀ t : SymbolTable, t.Keeps (x.run t).2
  again : ∀ {t t' s : SymbolTable} {a : α}, x.run t = (.ok a, t') → t'.Keeps s →
    x.run s = (.ok a, s)
  failing : ∀ {t t' : SymbolTable} {e : UnitError}, x.run t = (.error e, t') →
    x.run t' = (.error e, t')

theorem repeatable_pure (a : α) : (pure a : Generation α).Repeatable := by
  refine ⟨fun t => .refl t, fun h _ => ?_, fun h => ?_⟩
  · cases h
    rfl
  · cases h

theorem repeatable_throw (e : UnitError) : (throw e : Generation α).Repeatable := by
  refine ⟨fun t => .refl t, fun h _ => ?_, fun h => ?_⟩
  · cases h
  · cases h
    rfl

theorem repeatable_ofExcept (y : Except UnitError α) : (ofExcept y).Repeatable := by
  cases y with
  | error e => exact repeatable_throw e
  | ok a => exact repeatable_pure a

theorem Repeatable.bind {x : Generation α} {k : α → Generation β} (hx : x.Repeatable)
    (hk : ∀ a, (k a).Repeatable) : (x >>= k).Repeatable := by
  refine ⟨fun t => ?_, fun {t t' s b} h hs => ?_, fun {t t' e} h => ?_⟩
  · have hfirst := hx.keeps t
    cases hrun : x.run t with
    | mk result t₁ =>
        rw [hrun] at hfirst
        cases result with
        | error e =>
            rw [run_bind_of_error hrun]
            exact hfirst
        | ok a =>
            rw [run_bind_of_ok hrun]
            exact hfirst.trans ((hk a).keeps t₁)
  · obtain ⟨a, t₁, hrun, hrest⟩ := run_bind_eq_ok h
    have hkept := (hk a).keeps t₁
    rw [hrest] at hkept
    rw [run_bind_of_ok (hx.again hrun (hkept.trans hs))]
    exact (hk a).again hrest hs
  · cases hrun : x.run t with
    | mk result t₁ =>
        cases result with
        | error e' =>
            rw [run_bind_of_error hrun] at h
            cases h
            rw [run_bind_of_error (hx.failing hrun)]
        | ok a =>
            -- the first part has succeeded and does so again over what the rest has left
            rw [run_bind_of_ok hrun] at h
            have hkept := (hk a).keeps t₁
            rw [h] at hkept
            rw [run_bind_of_ok (hx.again hrun hkept)]
            exact (hk a).failing h

theorem repeatable_declareFunction (name : String) (linkage : Linkage) (params : List Ty) :
    (declareFunction name linkage params).Repeatable := by
  refine ⟨fun t => t.keeps_declareFunction name linkage params, fun {t t' s id} h hs => ?_,
    fun {t t' e} h => ?_⟩
  · have hsettled := t.declareFunction_again name linkage params
    rw [run_declareFunction_eq_ok h] at hsettled
    exact run_declareFunction_of_ok (hs.functions hsettled)
  · obtain ⟨err, rfl, hfirst⟩ := run_declareFunction_eq_error h
    have hagain := t.declareFunction_again name linkage params
    rw [hfirst] at hagain
    exact run_declareFunction_of_error hagain

theorem repeatable_importCell (name : String) : (declareCell name .imported).Repeatable := by
  refine ⟨fun t => t.keeps_importCell name, fun {t t' s known} h hs => ?_, fun {t t' e} h => ?_⟩
  · have hsettled := t.importCell_again name
    rw [run_declareCell_eq_ok h] at hsettled
    exact run_declareCell_of_ok (hs.imports hsettled)
  · obtain ⟨err, rfl, hfirst⟩ := run_declareCell_eq_error h
    have hagain := t.importCell_again name
    rw [hfirst] at hagain
    exact run_declareCell_of_error hagain

end Generation

open Generation

/-! ## Generation can be repeated -/

theorem Node.repeatable_generate (n : Node) (name : String) : (n.generate name).Repeatable := by
  unfold Node.generate
  refine (repeatable_ofExcept _).bind fun inputs => ?_
  refine (repeatable_ofExcept _).bind fun outputs => ?_
  exact (repeatable_declareFunction _ _ _).bind fun id => repeatable_ofExcept _

theorem repeatable_generateNodes (symbols : List (Node × String)) :
    (generateNodes symbols).Repeatable := by
  induction symbols with
  | nil => exact repeatable_pure _
  | cons entry symbols ih =>
      obtain ⟨n, name⟩ := entry
      exact (n.repeatable_generate name).bind fun f => ih.bind fun fs => repeatable_pure _

namespace EntryContext

variable (c : EntryContext) (n : Node) (d : EntryDraft)

theorem repeatable_argument (p : Port) : (c.argument n d p).Repeatable := by
  unfold argument
  refine (repeatable_ofExcept _).bind fun ty => ?_
  split
  · split
    · exact repeatable_throw _
    · exact repeatable_pure _
  · split
    · exact repeatable_throw _
    · exact (repeatable_importCell _).bind fun linkage => repeatable_pure _

theorem repeatable_arguments (ports : List Port) : (c.arguments n d ports).Repeatable := by
  induction ports generalizing d with
  | nil => exact repeatable_pure _
  | cons p ports ih =>
      exact (c.repeatable_argument n d p).bind fun first =>
        (ih _).bind fun rest => repeatable_pure _

theorem repeatable_call : (c.call n d).Repeatable := by
  unfold call
  refine (c.repeatable_arguments n d n.inputs).bind fun args => ?_
  refine (repeatable_ofExcept _).bind fun types => ?_
  dsimp only
  split
  · exact repeatable_throw _
  · exact repeatable_pure _

theorem repeatable_evaluate (nodes : List Node) : (c.evaluate d nodes).Repeatable := by
  induction nodes generalizing d with
  | nil => exact repeatable_pure _
  | cons n nodes ih =>
      unfold evaluate
      split
      · exact (repeatable_ofExcept _).bind fun d => ih d
      · exact (c.repeatable_call n d).bind fun d => ih d

theorem repeatable_generate (name : String) : (c.generate name).Repeatable := by
  unfold generate
  refine (repeatable_declareFunction _ _ _).bind fun id => ?_
  refine (c.repeatable_evaluate _ _).bind fun d => ?_
  exact (repeatable_ofExcept _).bind fun d => repeatable_pure _

end EntryContext

theorem repeatable_generateUnit (g : Graph) (ix : Index) (storage : StorageLayout)
    (r : UnitRequest) (sequence : Nat) : (generateUnit g ix storage r sequence).Repeatable := by
  unfold generateUnit
  refine (repeatable_ofExcept _).bind fun plan => ?_
  refine (repeatable_generateNodes _).bind fun nodes => ?_
  exact (EntryContext.repeatable_generate _ _).bind fun entry => repeatable_pure _

/-! ## Retries -/

namespace Backend

variable {b b₁ : Backend} {g : Graph} {ix : Index} {storage : StorageLayout} {r : UnitRequest}
  {e : UnitError}

/-- The outcomes of so many calls with the same arguments, and the backend after them. -/
def attempts (g : Graph) (ix : Index) (storage : StorageLayout) (r : UnitRequest) (b : Backend) :
    Nat → List (Except UnitError GeneratedUnit) × Backend
  | 0 => ([], b)
  | k + 1 =>
      let (outcome, b) := b.generate g ix storage r
      let (outcomes, b) := attempts g ix storage r b k
      (outcome :: outcomes, b)

theorem generate_eq_error_iff : b.generate g ix storage r = (.error e, b₁) ↔
    (generateUnit g ix storage r (b.sequence + 1)).run b.table = (.error e, b₁.table) ∧
      b₁ = { b with table := b₁.table } := by
  unfold generate
  simp only
  cases (generateUnit g ix storage r (b.sequence + 1)).run b.table with
  | mk result t =>
      cases result with
      | ok unit =>
          constructor
          · intro h
            cases h
          · rintro ⟨h, -⟩
            cases h
      | error e' =>
          constructor
          · intro h
            cases h
            exact ⟨rfl, rfl⟩
          · rintro ⟨h, hb⟩
            cases h
            exact congrArg (Prod.mk (Except.error e)) hb.symm

theorem generate_again (h : b.generate g ix storage r = (.error e, b₁)) :
    b₁.generate g ix storage r = (.error e, b₁) := by
  obtain ⟨hrun, hb⟩ := generate_eq_error_iff.1 h
  refine generate_eq_error_iff.2 ⟨?_, rfl⟩
  rw [show b₁.sequence = b.sequence by rw [hb]]
  exact (repeatable_generateUnit g ix storage r (b.sequence + 1)).failing hrun

theorem attempts_of_error (h : b.generate g ix storage r = (.error e, b)) (k : Nat) :
    attempts g ix storage r b k = (List.replicate k (.error e), b) := by
  induction k with
  | zero => rfl
  | succ k ih =>
      unfold attempts
      rw [h]
      dsimp only
      rw [ih]
      rfl

/-- Once a generation has failed, calls with the same arguments all fail alike and leave the
backend as the first one has left it, with the number it had: the next generation that succeeds
gets the number of the units that have failed. -/
theorem generate_retries (h : b.generate g ix storage r = (.error e, b₁)) :
    (∀ k, attempts g ix storage r b (k + 1) = (List.replicate (k + 1) (.error e), b₁)) ∧
    b₁.sequence = b.sequence ∧
    ∀ g' ix' storage' r' unit b₂, b₁.generate g' ix' storage' r' = (.ok unit, b₂) →
      unit.label = unitLabel (b.sequence + 1) r' ∧ b₂.sequence = b.sequence + 1 := by
  have hsequence : b₁.sequence = b.sequence := by
    rw [(generate_eq_error_iff.1 h).2]
  refine ⟨fun k => ?_, hsequence, fun g' ix' storage' r' unit b₂ hnext => ?_⟩
  · unfold attempts
    rw [h]
    dsimp only
    rw [attempts_of_error (generate_again h) k]
    rfl
  · obtain ⟨hrun, hb⟩ := generate_eq_ok hnext
    obtain ⟨plan, nodes, entry, t, -, -, -, rfl⟩ := generateUnit_eq_ok hrun
    rw [hsequence] at hb ⊢
    exact ⟨rfl, congrArg Backend.sequence hb⟩

end Backend

namespace RelayedSum

/-- The sum, without a value for its source, which no code computes. -/
def unsupplied : UnitRequest := ⟨[⟨"sum", "result"⟩], []⟩

def unsuppliedPlan : UnitPlan where
  version := graph.version
  outputs := [(⟨"sum", "result"⟩, .i32)]
  outputLayout := ⟨[⟨.i32, 0⟩], 4, 4⟩
  bindings := ⟨[]⟩
  inputLayout := ⟨[], 0, 1⟩
  order := [source, sum]

theorem unsupplied_order_eq :
    evaluationOrder graph (Index.build graph) [] ["sum"] = .ok [source, sum] := by
  have hedges : (Index.build graph).edges = [("sum", "source")] := by decide +kernel
  have hneeds : Schedule.needs [("sum", "source")] [] =
      fun node => if node = "sum" then ["source"] else [] := by
    funext node
    by_cases hsum : node = "sum"
    · subst hsum
      rfl
    · rw [if_neg hsum]
      simp [Schedule.needs, Ne.symm hsum]
  simp only [evaluationOrder, scheduleRoots, Index.contains, hedges, hneeds, ← Option.not_isSome]
  simp only [Index.build]
  cbv

theorem unsuppliedPlan_made : UnitPlan.make graph (Index.build graph)
    (StorageLayout.build graph (Index.build graph)) unsupplied = .ok unsuppliedPlan := by
  refine UnitPlan.make_of_parts rfl (by decide) ?_ (by decide) ?_ (by decide) unsupplied_order_eq
  · decide +kernel
  · decide +kernel

/-- What the backend is left with after the sum has been asked for without its source. -/
def failed : Backend :=
  ((Backend.start {} graph).generate graph (Index.build graph) graph.layout unsupplied).2

theorem exists_failed_eq : ∃ e, (Backend.start {} graph).generate graph (Index.build graph)
    graph.layout unsupplied = (.error e, failed) := by
  have hplan : UnitPlan.make graph (Index.build graph) graph.layout unsupplied =
      .ok unsuppliedPlan := unsuppliedPlan_made
  have hfails : ¬ (Backend.start {} graph).Generates graph unsupplied := by
    rw [Backend.generates_iff_isOk]
    simp only [Backend.generate, generateUnit, hplan]
    decide +kernel
  unfold failed
  cases hrun : (Backend.start {} graph).generate graph (Index.build graph) graph.layout
      unsupplied with
  | mk result b =>
      cases result with
      | error e => exact ⟨e, rfl⟩
      | ok unit => exact absurd ⟨unit, b, hrun⟩ hfails

/-- Three attempts in vain count for nothing: the sum is unit 1 once its source is supplied. -/
theorem generate_retries_relayedSum : ∃ e,
    (Backend.start {} graph).generate graph (Index.build graph) graph.layout unsupplied =
      (.error e, failed) ∧
    failed.table ≠ (Backend.start {} graph).table ∧
    Backend.attempts graph (Index.build graph) graph.layout unsupplied (Backend.start {} graph) 3 =
      ([.error e, .error e, .error e], failed) ∧
    ∃ unit b, failed.generate graph (Index.build graph) graph.layout request = (.ok unit, b) ∧
      unit.label = unitLabel 1 request ∧ b.sequence = 1 := by
  obtain ⟨e, h⟩ := exists_failed_eq
  obtain ⟨hattempts, -, hnext⟩ := Backend.generate_retries h
  have hplan : UnitPlan.make graph (Index.build graph) graph.layout unsupplied =
      .ok unsuppliedPlan := unsuppliedPlan_made
  have hplan' : UnitPlan.make graph (Index.build graph) graph.layout request = .ok plan := plan_made
  have hgrown : failed.table ≠ (Backend.start {} graph).table := by
    simp only [failed, Backend.generate, generateUnit, hplan]
    decide +kernel
  have hsucceeds : failed.Generates graph request := by
    rw [Backend.generates_iff_isOk]
    simp only [failed, Backend.generate, generateUnit, hplan, hplan']
    decide +kernel
  obtain ⟨unit, b, hunit⟩ := hsucceeds
  obtain ⟨hlabel, hsequence⟩ := hnext _ _ _ _ _ _ hunit
  exact ⟨e, h, hgrown, hattempts 2, unit, b, hunit, hlabel, hsequence⟩

end RelayedSum

end Dataflow
