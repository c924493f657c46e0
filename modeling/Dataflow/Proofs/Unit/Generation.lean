import Dataflow.Unit.Generation
import Mathlib.Data.List.Forall2

/-!
# Taking successful computations apart

A computation that succeeds has succeeded at every step. Generation also threads the symbol
table from step to step.
-/

namespace Dataflow

theorem bind_eq_ok {ε α β : Type} {x : Except ε α} {k : α → Except ε β} {b : β}
    (h : (x >>= k) = .ok b) : ∃ a, x = .ok a ∧ k a = .ok b := by
  cases x with
  | error e => contradiction
  | ok a => exact ⟨a, rfl, h⟩

theorem mapError_eq_ok {ε δ α : Type} {e : ε → δ} {x : Except ε α} {a : α}
    (h : x.mapError e = .ok a) : x = .ok a := by
  cases x with
  | error err => contradiction
  | ok b =>
      cases h
      rfl

theorem forall₂_of_mapM_eq_ok {ε α β : Type} {f : α → Except ε β} {xs : List α} {ys : List β}
    (h : xs.mapM f = .ok ys) : List.Forall₂ (fun x y => f x = .ok y) xs ys := by
  induction xs generalizing ys with
  | nil =>
      cases h
      exact .nil
  | cons x xs ih =>
      rw [List.mapM_cons] at h
      obtain ⟨y, hy, h⟩ := bind_eq_ok h
      obtain ⟨rest, hrest, h⟩ := bind_eq_ok h
      cases h
      exact .cons hy (ih hrest)

theorem forall₂_of_map_eq {α β γ : Type} {f : α → γ} {g : β → γ} {xs : List α} {ys : List β}
    (h : xs.map f = ys.map g) : List.Forall₂ (fun x y => f x = g y) xs ys := by
  rw [← List.forall₂_eq_eq_eq, List.forall₂_map_left_iff, List.forall₂_map_right_iff] at h
  exact h

theorem forall₂_trans {α β γ : Type} {R : α → β → Prop} {S : α → γ → Prop} {T : β → γ → Prop}
    {xs : List α} {ys : List β} {zs : List γ} (h : List.Forall₂ R xs ys)
    (h' : List.Forall₂ S xs zs) (hrel : ∀ x y z, R x y → S x z → T y z) :
    List.Forall₂ T ys zs := by
  induction h generalizing zs with
  | nil =>
      cases h'
      exact .nil
  | cons hfirst _ ih =>
      cases h' with
      | cons hfirst' hrest' => exact .cons (hrel _ _ _ hfirst hfirst') (ih hrest')

theorem exists_of_forall₂ {α β : Type} {R : α → β → Prop} {xs : List α} {ys : List β}
    (h : List.Forall₂ R xs ys) {k : Nat} {y : β} (hy : ys[k]? = some y) :
    ∃ x, xs[k]? = some x ∧ R x y := by
  induction h generalizing k with
  | nil => simp at hy
  | cons hfirst _ ih =>
      cases k with
      | zero =>
          cases hy
          exact ⟨_, rfl, hfirst⟩
      | succ k => exact ih hy

namespace Generation

variable {α β : Type} {t t' : SymbolTable}

theorem run_bind_of_ok {x : Generation α} {a : α} {t₁ : SymbolTable}
    (h : x.run t = (.ok a, t₁)) (k : α → Generation β) : (x >>= k).run t = (k a).run t₁ := by
  change ExceptT.bindCont k (x.run t).1 (x.run t).2 = _
  rw [h]
  rfl

theorem run_bind_of_error {x : Generation α} {e : UnitError} {t₁ : SymbolTable}
    (h : x.run t = (.error e, t₁)) (k : α → Generation β) :
    (x >>= k).run t = (.error e, t₁) := by
  change ExceptT.bindCont k (x.run t).1 (x.run t).2 = _
  rw [h]
  rfl

theorem run_bind_eq_ok {x : Generation α} {k : α → Generation β} {b : β}
    (h : (x >>= k).run t = (.ok b, t')) :
    ∃ a t₁, x.run t = (.ok a, t₁) ∧ (k a).run t₁ = (.ok b, t') := by
  cases hx : x.run t with
  | mk result t₁ =>
      cases result with
      | error e =>
          rw [run_bind_of_error hx] at h
          cases h
      | ok a =>
          rw [run_bind_of_ok hx] at h
          exact ⟨a, t₁, rfl, h⟩

theorem run_ofExcept_of_ok {e : Except UnitError α} {a : α} (h : e = .ok a)
    (t : SymbolTable) : (ofExcept e).run t = (.ok a, t) := by
  rw [h]
  rfl

theorem run_ofExcept_eq_ok {e : Except UnitError α} {a : α}
    (h : (ofExcept e).run t = (.ok a, t')) : e = .ok a ∧ t' = t := by
  cases h
  exact ⟨rfl, rfl⟩

theorem run_pure_eq_ok {a b : α} (h : (pure a : Generation α).run t = (.ok b, t')) :
    a = b ∧ t' = t := by
  cases h
  exact ⟨rfl, rfl⟩

theorem run_declareFunction_of_ok {name : String} {linkage : Linkage} {params : List Ir.Ty}
    {id : Nat} (h : t.declareFunction name linkage params = (.ok id, t')) :
    (declareFunction name linkage params).run t = (.ok id, t') := by
  change ((t.declareFunction name linkage params).1.mapError UnitError.symbol,
    (t.declareFunction name linkage params).2) = _
  rw [h]
  rfl

theorem run_declareCell_of_ok {name : String} {linkage known : Linkage}
    (h : t.declareCell name linkage = (.ok known, t')) :
    (declareCell name linkage).run t = (.ok known, t') := by
  change ((t.declareCell name linkage).1.mapError UnitError.symbol,
    (t.declareCell name linkage).2) = _
  rw [h]
  rfl

theorem run_declareFunction_eq_ok {name : String} {linkage : Linkage} {params : List Ir.Ty}
    {id : Nat} (h : (declareFunction name linkage params).run t = (.ok id, t')) :
    t.declareFunction name linkage params = (.ok id, t') := by
  change ((t.declareFunction name linkage params).1.mapError UnitError.symbol, _) = _ at h
  obtain ⟨hid, ht⟩ := Prod.mk.inj h
  exact Prod.ext (mapError_eq_ok hid) ht

theorem run_declareCell_eq_ok {name : String} {linkage known : Linkage}
    (h : (declareCell name linkage).run t = (.ok known, t')) :
    t.declareCell name linkage = (.ok known, t') := by
  change ((t.declareCell name linkage).1.mapError UnitError.symbol, _) = _ at h
  obtain ⟨hknown, ht⟩ := Prod.mk.inj h
  exact Prod.ext (mapError_eq_ok hknown) ht

theorem run_declareFunction_of_error {name : String} {linkage : Linkage} {params : List Ir.Ty}
    {err : SymbolError} (h : t.declareFunction name linkage params = (.error err, t')) :
    (declareFunction name linkage params).run t = (.error (.symbol err), t') := by
  change ((t.declareFunction name linkage params).1.mapError UnitError.symbol,
    (t.declareFunction name linkage params).2) = _
  rw [h]
  rfl

theorem run_declareCell_of_error {name : String} {linkage : Linkage} {err : SymbolError}
    (h : t.declareCell name linkage = (.error err, t')) :
    (declareCell name linkage).run t = (.error (.symbol err), t') := by
  change ((t.declareCell name linkage).1.mapError UnitError.symbol,
    (t.declareCell name linkage).2) = _
  rw [h]
  rfl

theorem run_declareFunction_eq_error {name : String} {linkage : Linkage} {params : List Ir.Ty}
    {e : UnitError} (h : (declareFunction name linkage params).run t = (.error e, t')) :
    ∃ err, e = .symbol err ∧ t.declareFunction name linkage params = (.error err, t') := by
  cases hdeclare : t.declareFunction name linkage params with
  | mk result t₁ =>
      cases result with
      | error err =>
          rw [run_declareFunction_of_error hdeclare] at h
          cases h
          exact ⟨err, rfl, rfl⟩
      | ok id =>
          rw [run_declareFunction_of_ok hdeclare] at h
          cases h

theorem run_declareCell_eq_error {name : String} {linkage : Linkage} {e : UnitError}
    (h : (declareCell name linkage).run t = (.error e, t')) :
    ∃ err, e = .symbol err ∧ t.declareCell name linkage = (.error err, t') := by
  cases hdeclare : t.declareCell name linkage with
  | mk result t₁ =>
      cases result with
      | error err =>
          rw [run_declareCell_of_error hdeclare] at h
          cases h
          exact ⟨err, rfl, rfl⟩
      | ok known =>
          rw [run_declareCell_of_ok hdeclare] at h
          cases h

end Generation

end Dataflow
