import Dataflow.Decimal.Shortest

/-!
# Numerals

A numeral is a number as it is written: sign, digits before and after the point, and
a power of ten. A `NumberStyle` holds the choices a written form makes, and
`NumberStyle.numeral` writes the shortest decimal of a finite number in that form.
-/

namespace Dataflow

structure Numeral where
  negative : Bool
  whole : List Char
  /-- The digits after the point; without any, no point is written. -/
  fraction : List Char
  /-- The sign and the digits of the power of ten, if one is written. -/
  exponent : Option (Bool × List Char)
deriving DecidableEq, Repr

namespace Numeral

def chars (n : Numeral) : List Char :=
  (if n.negative then ['-'] else []) ++ n.whole
    ++ (if n.fraction.isEmpty then [] else '.' :: n.fraction)
    ++ match n.exponent with
      | none => []
      | some (negative, digits) => 'e' :: (if negative then '-' else '+') :: digits

def text (n : Numeral) : String := String.ofList n.chars

def ofInt (i : Int) : Numeral := ⟨i < 0, Nat.toDigits 10 i.natAbs, [], none⟩

def isInteger (n : Numeral) : Bool := n.fraction.isEmpty && n.exponent.isNone

end Numeral

def digitValue (c : Char) : Nat := c.toNat - '0'.toNat

def digitsValue (digits : List Char) : Nat :=
  digits.foldl (fun n c => 10 * n + digitValue c) 0

structure NumberStyle where
  tie : TieRule
  /-- The positions of the decimal point, counted from before the first digit, at
  which no power of ten is written; `none` stands for all of them. -/
  positional : Option (Int × Int)
  /-- The digits after the point of a positional number that has none there. -/
  wholeFraction : List Char

namespace NumberStyle

def zeros (n : Nat) : List Char := List.replicate n '0'

def positionalNumeral (style : NumberStyle) (negative : Bool) (digits : List Char)
    (point : Int) : Numeral :=
  let whole := point.toNat
  if point ≤ 0 then ⟨negative, ['0'], zeros (-point).toNat ++ digits, none⟩
  else if digits.length ≤ whole then
    ⟨negative, digits ++ zeros (whole - digits.length), style.wholeFraction, none⟩
  else ⟨negative, digits.take whole, digits.drop whole, none⟩

def scientificNumeral (negative : Bool) (digits : List Char) (point : Int) : Numeral :=
  let exponent := point - 1
  ⟨negative, digits.take 1, digits.drop 1,
    some (exponent < 0, Nat.toDigits 10 exponent.natAbs)⟩

def isPositional (style : NumberStyle) (point : Int) : Bool :=
  match style.positional with
  | none => true
  | some (low, high) => low ≤ point && point ≤ high

/-- The shortest decimal of a finite number, written in the given style. -/
def numeral (style : NumberStyle) (f : FloatFormat) (x : BitVec f.width) : Numeral :=
  let magnitude := FloatFormat.magnitude x
  if magnitude = 0 then ⟨x.msb, ['0'], style.wholeFraction, none⟩
  else
    let d := Decimal.shortest f style.tie magnitude
    let digits := Nat.toDigits 10 d.significand
    let point := d.exponent + digits.length
    if style.isPositional point then style.positionalNumeral x.msb digits point
    else scientificNumeral x.msb digits point

end NumberStyle

end Dataflow
