import Dataflow.Scalar.Basic
import Dataflow.Decimal.Numeral

/-!
# Text of scalar values

A number is followed by the name of its type.
-/

namespace Dataflow.Value

/-- Numbers are written without a power of ten and without a fraction they do not
have. -/
def numberStyle : NumberStyle where
  tie := .up
  positional := none
  wholeFraction := []

def floatText (f : FloatFormat) (x : BitVec f.width) : String :=
  if FloatFormat.isNaN x then "NaN"
  else if FloatFormat.isInfinite x then if x.msb then "-inf" else "inf"
  else (numberStyle.numeral f x).text

def text : Value → String
  | f32 x => floatText binary32 x ++ "f32"
  | f64 x => floatText binary64 x ++ "f64"
  | i32 x => (Numeral.ofInt x.toInt).text ++ "i32"
  | i64 x => (Numeral.ofInt x.toInt).text ++ "i64"
  | bool b => if b then "true" else "false"

end Dataflow.Value
