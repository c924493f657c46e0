import Dataflow.Json.Basic
import Dataflow.Binary.Arithmetic

/-!
# Numbers of JSON texts

Whole numbers are exact. A number with a point or a power of ten is taken through
64-bit arithmetic: the leading digits that fit a 64-bit word are multiplied or divided
by a power of ten in binary floating point.
-/

namespace Dataflow.Numeral

/-- Words are below it. -/
def wordLimit : Nat := Nat.pow 2 64

/-- The size from which on an exponent is out of range. -/
def exponentLimit : Nat := Nat.pow 2 31

/-- Integers of the given number of bits are below it and not below its negative. -/
def signedLimit (bits : Nat) : Int := Nat.pow 2 (bits - 1)

/-- Whole numbers; negative zero is none of them. -/
def toInt? (n : Numeral) : Option Int :=
  let magnitude := digitsValue n.whole
  if !n.isInteger then none
  else if n.negative then if magnitude = 0 then none else some (-magnitude)
  else some magnitude

/-- Takes in digits as long as they fit a word, and counts those taken. -/
def takeDigits (significand taken : Nat) : List Char → Nat × Nat
  | [] => (significand, taken)
  | c :: digits =>
      let next := 10 * significand + digitValue c
      if next < wordLimit then takeDigits next (taken + 1) digits else (significand, taken)

/-- The significand and the power of ten of the digits; digits before the point that do
not fit count as powers of ten, the others are dropped. -/
def scaled (n : Numeral) : Nat × Int :=
  let (significand, taken) := takeDigits 0 0 n.whole
  let dropped := n.whole.length - taken
  let (significand, taken) := takeDigits significand 0 n.fraction
  (significand, (dropped : Int) - taken)

/-- An exponent within 32-bit range, or `none` if it is beyond. -/
def exponentValue? (n : Numeral) : Option Int :=
  match n.exponent with
  | none => some 0
  | some (negative, digits) =>
      let magnitude := digitsValue digits
      if magnitude < exponentLimit then some (if negative then -magnitude else magnitude)
      else none

def saturate (i : Int) : Int :=
  max (-(exponentLimit : Int)) (min (exponentLimit - 1) i)

def powerOfTen (k : Nat) : BitVec 64 := binary64.ofRatio false (Nat.pow 10 k) 1

/-- Scales by a power of ten in steps within range; too large a number is refused. -/
def scale? (x : BitVec 64) (exponent : Int) : Option (BitVec 64) :=
  if 0 ≤ exponent then
    if exponent ≤ 308 then
      let y := FloatFormat.mul (f := binary64) x (powerOfTen exponent.toNat)
      if FloatFormat.isInfinite (f := binary64) y then none else some y
    else if FloatFormat.isZero (f := binary64) x then some x
    else none
  else if -308 ≤ exponent then
    some (FloatFormat.div (f := binary64) x (powerOfTen (-exponent).toNat))
  else if FloatFormat.isZero (f := binary64) x then some x
  else scale? (FloatFormat.div (f := binary64) x (powerOfTen 308)) (exponent + 308)
termination_by (-exponent).toNat
decreasing_by omega

def withSign (negative : Bool) (x : BitVec 64) : BitVec 64 :=
  if negative then FloatFormat.negate (f := binary64) x else x

/-- The 64-bit value of a number that is no 64-bit integer. -/
def toReal? (n : Numeral) : Option (BitVec 64) :=
  let (significand, exponent) := n.scaled
  match n.exponentValue? with
  | some e =>
      (scale? (binary64.ofRatio false significand 1) (saturate (exponent + e))).map
        (withSign n.negative)
  | none =>
      let shrinks := (n.exponent.map Prod.fst).getD false
      if significand = 0 ∨ shrinks then some (withSign n.negative 0) else none

/-- Integers that fit 64 bits are rounded at once to the format, all other numbers by
way of 64-bit values. -/
def toFloat? (f : FloatFormat) (n : Numeral) : Option (BitVec f.width) :=
  let viaReal := n.toReal?.map (FloatFormat.convert (f := binary64) f)
  match n.toInt? with
  | none => viaReal
  | some i =>
      if -signedLimit 64 ≤ i ∧ i < wordLimit then some (f.ofRatio (i < 0) i.natAbs 1) else viaReal

end Dataflow.Numeral
