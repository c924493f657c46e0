/-!
# Binary floating-point formats

A format fixes a width and a number of fraction bits. Every finite number of a
format is a whole multiple of its smallest positive number, its *unit*, so exact
arithmetic is arithmetic on integers counting units. `FloatFormat.round` is the
only place where precision is lost: it takes a ratio of units to the nearest
number of the format.
-/

namespace Dataflow

structure FloatFormat where
  width : Nat
  fractionBits : Nat

abbrev binary32 : FloatFormat := ⟨32, 23⟩

abbrev binary64 : FloatFormat := ⟨64, 52⟩

/-- Quotient rounded to the nearest integer, a half going to the even one. -/
def divHalfEven (num den : Nat) : Nat :=
  let q := num / den
  let r := num % den
  if 2 * r < den then q
  else if den < 2 * r then q + 1
  else if q % 2 = 0 then q else q + 1

namespace FloatFormat

variable (f : FloatFormat)

def exponentBits : Nat := f.width - 1 - f.fractionBits

def bias : Nat := Nat.pow 2 (f.exponentBits - 1) - 1

def signBit : Nat := Nat.pow 2 (f.width - 1)

/-- The weight of the leading bit, which a normal number leaves out. -/
def leadingBit : Nat := Nat.pow 2 f.fractionBits

/-- The magnitude of an infinity; every larger magnitude is a NaN. -/
def infinity : Nat := (Nat.pow 2 f.exponentBits - 1) * f.leadingBit

/-- The top fraction bit, set in every quiet NaN. -/
def quietBit : Nat := Nat.pow 2 (f.fractionBits - 1)

/-- How many units make one. -/
def unitsPerOne : Nat := Nat.pow 2 (f.bias + f.fractionBits - 1)

/-- The units counted by a finite magnitude. At the magnitude of infinity it gives
the power of two that would come next. -/
def units (magnitude : Nat) : Nat :=
  let field := magnitude / f.leadingBit
  let fraction := magnitude % f.leadingBit
  if field = 0 then fraction else (fraction + f.leadingBit) * Nat.pow 2 (field - 1)

/-- The magnitude nearest to `num / den` units, a half going to the even one and
everything out of range to infinity. -/
def round (num den : Nat) : Nat :=
  let shift := (num / den).log2 - f.fractionBits
  min f.infinity (shift * f.leadingBit + divHalfEven num (den * Nat.pow 2 shift))

def pack (negative : Bool) (magnitude : Nat) : BitVec f.width :=
  BitVec.ofNat f.width ((if negative then f.signBit else 0) + magnitude)

/-- The number nearest to `num / den`, with the given sign. -/
def ofRatio (negative : Bool) (num den : Nat) : BitVec f.width :=
  f.pack negative (f.round (num * f.unitsPerOne) den)

variable {f}

def magnitude (x : BitVec f.width) : Nat := x.toNat % f.signBit

def isNaN (x : BitVec f.width) : Bool := f.infinity < magnitude x

def isInfinite (x : BitVec f.width) : Bool := magnitude x == f.infinity

def isFinite (x : BitVec f.width) : Bool := magnitude x < f.infinity

def isZero (x : BitVec f.width) : Bool := magnitude x == 0

def signedUnits (x : BitVec f.width) : Int :=
  if x.msb then -(f.units (magnitude x) : Int) else f.units (magnitude x)

/-- A finite number of one format as the nearest number of another. -/
def convert (g : FloatFormat) (x : BitVec f.width) : BitVec g.width :=
  g.ofRatio x.msb (f.units (magnitude x)) f.unitsPerOne

end FloatFormat

end Dataflow
