import Dataflow.Binary.Arithmetic
import Dataflow.Bytes

/-!
# Port types and scalar values

A value is one scalar together with its type. Floating-point values are their bit
patterns, so a stored NaN keeps its payload. Every type but `opaque` has a native
image of `size` bytes, least significant byte first.
-/

namespace Dataflow

inductive DataType
  | f32
  | f64
  | i32
  | i64
  | bool
  | handle
deriving DecidableEq, Repr

inductive Value
  | f32 (bits : BitVec 32)
  | f64 (bits : BitVec 64)
  | i32 (bits : BitVec 32)
  | i64 (bits : BitVec 64)
  | bool (flag : Bool)
deriving DecidableEq, Repr

namespace DataType

/-- The bytes of a native image; a handle has none. -/
def size : DataType → Option Nat
  | f32 => some 4
  | f64 => some 8
  | i32 => some 4
  | i64 => some 8
  | bool => some 1
  | handle => none

/-- Native images are aligned to their own size. -/
def align (ty : DataType) : Option Nat := ty.size

def zero : DataType → Option Value
  | f32 => some (.f32 0)
  | f64 => some (.f64 0)
  | i32 => some (.i32 0)
  | i64 => some (.i64 0)
  | bool => some (.bool false)
  | handle => none

def isFloat : DataType → Bool
  | f32 | f64 => true
  | _ => false

def isInteger : DataType → Bool
  | i32 | i64 => true
  | _ => false

/-- Identifies the type in version encodings. -/
def tag : DataType → UInt8
  | f32 => 1
  | f64 => 2
  | i32 => 3
  | i64 => 4
  | bool => 5
  | handle => 6

def name : DataType → String
  | f32 => "f32"
  | f64 => "f64"
  | i32 => "i32"
  | i64 => "i64"
  | bool => "bool"
  | handle => "opaque"

def all : List DataType := [f32, f64, i32, i64, bool, handle]

def ofName? (s : String) : Option DataType := all.find? fun ty => ty.name == s

end DataType

namespace Value

def dataType : Value → DataType
  | f32 _ => .f32
  | f64 _ => .f64
  | i32 _ => .i32
  | i64 _ => .i64
  | bool _ => .bool

def toBytes : Value → Bytes
  | f32 x => Bytes.ofNat 4 x.toNat
  | f64 x => Bytes.ofNat 8 x.toNat
  | i32 x => Bytes.ofNat 4 x.toNat
  | i64 x => Bytes.ofNat 8 x.toNat
  | bool b => [if b then 1 else 0]

/-- Reads the native image at the front of `bs`; any non-zero byte is true. -/
def ofBytes? (ty : DataType) (bs : Bytes) : Option Value := do
  let size ← ty.size
  let image ← bs.slice? 0 size
  let n := Bytes.toNat image
  match ty with
  | .f32 => some (.f32 (BitVec.ofNat 32 n))
  | .f64 => some (.f64 (BitVec.ofNat 64 n))
  | .i32 => some (.i32 (BitVec.ofNat 32 n))
  | .i64 => some (.i64 (BitVec.ofNat 64 n))
  | .bool => some (.bool (n != 0))
  | .handle => none

/-- Equality of numbers: zeros of either sign agree and a NaN equals nothing. -/
def sameNumber : Value → Value → Bool
  | f32 x, f32 y => FloatFormat.eq (f := binary32) x y
  | f64 x, f64 y => FloatFormat.eq (f := binary64) x y
  | i32 x, i32 y => x == y
  | i64 x, i64 y => x == y
  | bool x, bool y => x == y
  | _, _ => false

end Value

end Dataflow
