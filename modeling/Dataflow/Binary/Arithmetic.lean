import Dataflow.Binary.Format

/-!
# Arithmetic and order on binary floating-point numbers

Each operation is exact on units and then rounds once. A NaN operand is passed on
made quiet, the first one winning in arithmetic and the second one in `minimum`
and `maximum`; an operation without a value gives the negative default NaN.
-/

namespace Dataflow.FloatFormat

variable {f : FloatFormat}

def quiet (x : BitVec f.width) : BitVec f.width := x ||| BitVec.ofNat f.width f.quietBit

variable (f) in
/-- What an operation without a value yields, such as zero over zero. -/
def invalid : BitVec f.width := f.pack true (f.infinity + f.quietBit)

def negate (x : BitVec f.width) : BitVec f.width := x ^^^ BitVec.ofNat f.width f.signBit

def addNumbers (x y : BitVec f.width) : BitVec f.width :=
  if isInfinite x then
    if isInfinite y && x.msb != y.msb then f.invalid else x
  else if isInfinite y then y
  else
    let sum := signedUnits x + signedUnits y
    if sum = 0 then f.pack (x.msb && y.msb) 0
    else f.pack (sum < 0) (f.round sum.natAbs 1)

def mulNumbers (x y : BitVec f.width) : BitVec f.width :=
  let negative := x.msb != y.msb
  if isInfinite x || isInfinite y then
    if isZero x || isZero y then f.invalid else f.pack negative f.infinity
  else
    f.pack negative
      (f.round (f.units (magnitude x) * f.units (magnitude y)) f.unitsPerOne)

def divNumbers (x y : BitVec f.width) : BitVec f.width :=
  let negative := x.msb != y.msb
  if isInfinite x then
    if isInfinite y then f.invalid else f.pack negative f.infinity
  else if isInfinite y then f.pack negative 0
  else if isZero y then
    if isZero x then f.invalid else f.pack negative f.infinity
  else
    f.pack negative
      (f.round (f.units (magnitude x) * f.unitsPerOne) (f.units (magnitude y)))

/-- Passes a NaN operand on, the first one if both are. -/
def lift (op : BitVec f.width → BitVec f.width → BitVec f.width)
    (x y : BitVec f.width) : BitVec f.width :=
  if isNaN x then quiet x else if isNaN y then quiet y else op x y

def add : BitVec f.width → BitVec f.width → BitVec f.width := lift addNumbers

def sub : BitVec f.width → BitVec f.width → BitVec f.width :=
  lift fun x y => addNumbers x (negate y)

def mul : BitVec f.width → BitVec f.width → BitVec f.width := lift mulNumbers

def div : BitVec f.width → BitVec f.width → BitVec f.width := lift divNumbers

/-- Orders the numbers of a format, both zeros at the same place. -/
def orderKey (x : BitVec f.width) : Int :=
  if x.msb then -(magnitude x : Int) else magnitude x

def eq (x y : BitVec f.width) : Bool :=
  !isNaN x && !isNaN y && orderKey x == orderKey y

def lt (x y : BitVec f.width) : Bool :=
  !isNaN x && !isNaN y && orderKey x < orderKey y

def le (x y : BitVec f.width) : Bool :=
  !isNaN x && !isNaN y && orderKey x ≤ orderKey y

/-- The lesser operand, negative zero being less than positive zero. -/
def minimum (x y : BitVec f.width) : BitVec f.width :=
  if isNaN y then quiet y
  else if isNaN x then quiet x
  else if lt x y then x
  else if lt y x then y
  else f.pack (x.msb || y.msb) (magnitude x)

def maximum (x y : BitVec f.width) : BitVec f.width :=
  if isNaN y then quiet y
  else if isNaN x then quiet x
  else if lt x y then y
  else if lt y x then x
  else f.pack (x.msb && y.msb) (magnitude x)

end Dataflow.FloatFormat
