import Dataflow.Binary.Format

/-!
# Shortest decimals

The decimal with the fewest digits that reads back as a given binary number. On
the grid of each digit count the two neighbours of the number are tried, and the
first grid with a neighbour that reads back decides; of two such neighbours the
nearer one is taken.
-/

namespace Dataflow

/-- The number `significand * 10 ^ exponent`. -/
structure Decimal where
  significand : Nat
  exponent : Int
deriving DecidableEq, Repr

/-- Where a number halfway between two candidates goes. -/
inductive TieRule
  | up
  | toEven
deriving DecidableEq, Repr

def digitCount (n : Nat) : Nat := (Nat.toDigits 10 n).length

namespace Decimal

def numerator (d : Decimal) : Nat := d.significand * Nat.pow 10 d.exponent.toNat

def denominator (d : Decimal) : Nat := Nat.pow 10 (-d.exponent).toNat

/-- Drops trailing zeros, at most `fuel` of them. -/
def strip : Nat → Decimal → Decimal
  | 0, d => d
  | fuel + 1, d =>
      if d.significand ≠ 0 ∧ d.significand % 10 = 0 then
        strip fuel ⟨d.significand / 10, d.exponent + 1⟩
      else d

def normal (d : Decimal) : Decimal := strip (digitCount d.significand) d

/-- The exponent of the leading digit of `num / den`. -/
def leadingExponent (num den : Nat) : Int :=
  if den ≤ num then (digitCount (num / den) : Int) - 1
  else -(digitCount ((den + num - 1) / num - 1) : Int)

def readsBack (f : FloatFormat) (magnitude : Nat) (d : Decimal) : Bool :=
  f.round (d.numerator * f.unitsPerOne) d.denominator == magnitude

/-- The neighbour of `num / den` on the grid of step `10 ^ grid` that reads back as
`magnitude`, if there is one. -/
def onGrid? (f : FloatFormat) (tie : TieRule) (magnitude num den : Nat) (grid : Int) :
    Option Decimal :=
  let n := num * Nat.pow 10 (-grid).toNat
  let d := den * Nat.pow 10 grid.toNat
  let below : Decimal := ⟨n / d, grid⟩
  let above : Decimal := ⟨n / d + 1, grid⟩
  let r := n % d
  let aboveIsNearer :=
    d < 2 * r || (d == 2 * r && (tie == .up || (n / d) % 2 == 1))
  match readsBack f magnitude below, readsBack f magnitude above with
  | true, true => some (if aboveIsNearer then above else below)
  | true, false => some below
  | false, true => some above
  | false, false => none

/-- The shortest decimal that reads back as the finite non-zero `magnitude`. -/
def shortest (f : FloatFormat) (tie : TieRule) (magnitude : Nat) : Decimal :=
  let num := f.units magnitude
  let den := f.unitsPerOne
  let lead := leadingExponent num den
  let found := (List.range 17).findSome? fun (k : Nat) =>
    onGrid? f tie magnitude num den (lead - k)
  (found.getD ⟨num, 0⟩).normal

end Decimal

end Dataflow
