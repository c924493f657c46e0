import Dataflow.Proofs.Kind.Meaning
import Mathlib.Order.Lattice

/-!
# Integer computations, by numbers

What arithmetic, comparison and clamping make of words, said by the signed numbers that the words
stand for. Sums, differences, products and quotients wrap; the other results are numbers among
the operands and need not.
-/

namespace Dataflow

open Ir

namespace MathOp

/-- The result before it wraps. A quotient is truncated towards zero, and one by zero is zero. -/
def exact (op : MathOp) (x y : Int) : Int :=
  match op with
  | add => x + y
  | sub => x - y
  | mul => x * y
  | div => if y = 0 then 0 else x.tdiv y
  | min => Min.min x y
  | max => Max.max x y

variable {w : Nat}

theorem toInt_onInts_min (x y : BitVec w) :
    (min.onInts x y).toInt = Min.min x.toInt y.toInt := by
  rw [onInts, BitVec.sle_eq_decide]
  by_cases hle : x.toInt ≤ y.toInt
  · rw [if_pos (decide_eq_true hle), min_eq_left hle]
  · rw [if_neg (by simpa using hle), min_eq_right (by omega)]

theorem toInt_onInts_max (x y : BitVec w) :
    (max.onInts x y).toInt = Max.max x.toInt y.toInt := by
  rw [onInts, BitVec.sle_eq_decide]
  by_cases hle : x.toInt ≤ y.toInt
  · rw [if_pos (decide_eq_true hle), max_eq_right hle]
  · rw [if_neg (by simpa using hle), max_eq_left (by omega)]

theorem sdiv_eq_ofInt_tdiv (x y : BitVec w) :
    x.sdiv y = BitVec.ofInt w (if y.toInt = 0 then 0 else x.toInt.tdiv y.toInt) := by
  apply BitVec.eq_of_toInt_eq
  rw [BitVec.toInt_sdiv, BitVec.toInt_ofInt]
  split
  · rename_i hzero
    rw [hzero, Int.tdiv_zero]
  · rfl

/-- Integer arithmetic is that of numbers, wrapped to the width of the words. -/
theorem onInts_eq (op : MathOp) (x y : BitVec w) :
    op.onInts x y = BitVec.ofInt w (op.exact x.toInt y.toInt) := by
  cases op with
  | add =>
      calc x + y = BitVec.ofInt w x.toInt + BitVec.ofInt w y.toInt := by
            rw [BitVec.ofInt_toInt, BitVec.ofInt_toInt]
        _ = BitVec.ofInt w (x.toInt + y.toInt) := (BitVec.ofInt_add ..).symm
  | sub =>
      apply BitVec.eq_of_toInt_eq
      rw [onInts, exact, BitVec.toInt_sub, BitVec.toInt_ofInt]
  | mul =>
      calc x * y = BitVec.ofInt w x.toInt * BitVec.ofInt w y.toInt := by
            rw [BitVec.ofInt_toInt, BitVec.ofInt_toInt]
        _ = BitVec.ofInt w (x.toInt * y.toInt) := (BitVec.ofInt_mul ..).symm
  | div => exact sdiv_eq_ofInt_tdiv x y
  | min => rw [exact, ← toInt_onInts_min, BitVec.ofInt_toInt]
  | max => rw [exact, ← toInt_onInts_max, BitVec.ofInt_toInt]

end MathOp

namespace CompareOp

/-- The relation of numbers that a comparison tests. -/
def Holds (op : CompareOp) (x y : Int) : Prop :=
  match op with
  | lt => x < y
  | le => x ≤ y
  | gt => y < x
  | ge => y ≤ x
  | eq => x = y
  | ne => x ≠ y

instance (op : CompareOp) (x y : Int) : Decidable (op.Holds x y) :=
  match op with
  | lt => inferInstanceAs (Decidable (x < y))
  | le => inferInstanceAs (Decidable (x ≤ y))
  | gt => inferInstanceAs (Decidable (y < x))
  | ge => inferInstanceAs (Decidable (y ≤ x))
  | eq => inferInstanceAs (Decidable (x = y))
  | ne => inferInstanceAs (Decidable (x ≠ y))

theorem holdsInts_iff {w : Nat} (op : CompareOp) (x y : BitVec w) :
    op.holdsInts x y = true ↔ op.Holds x.toInt y.toInt := by
  cases op with
  | lt => exact BitVec.slt_iff_toInt_lt
  | le => exact BitVec.sle_iff_toInt_le
  | gt => exact BitVec.slt_iff_toInt_lt
  | ge => exact BitVec.sle_iff_toInt_le
  | eq => exact beq_iff_eq.trans BitVec.toInt_inj.symm
  | ne => exact bne_iff_ne.trans BitVec.toInt_ne.symm

theorem holdsInts_eq {w : Nat} (op : CompareOp) (x y : BitVec w) :
    op.holdsInts x y = decide (op.Holds x.toInt y.toInt) := by
  rw [Bool.eq_iff_iff, decide_eq_true_iff, holdsInts_iff]

end CompareOp

/-! ## Clamping -/

/-- The number, brought below the upper bound after it was brought above the lower one. -/
def clampInt (x low high : Int) : Int := min (max x low) high

theorem clampInt_le (x low high : Int) : clampInt x low high ≤ high := min_le_right ..

theorem le_clampInt {low high : Int} (h : low ≤ high) (x : Int) : low ≤ clampInt x low high :=
  le_min (le_max_right x low) h

theorem clampInt_clampInt (x low high : Int) :
    clampInt (clampInt x low high) low high = clampInt x low high := by
  unfold clampInt
  omega

theorem toInt_clamp {w : Nat} (x low high : BitVec w) :
    (MathOp.min.onInts (MathOp.max.onInts x low) high).toInt =
      clampInt x.toInt low.toInt high.toInt := by
  rw [MathOp.toInt_onInts_min, MathOp.toInt_onInts_max, clampInt]

end Dataflow
