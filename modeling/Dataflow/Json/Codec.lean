import Dataflow.Cache
import Dataflow.Json.Number
import Dataflow.Json.Parse

/-!
# JSON forms of the library's data

Structures are written as objects with their fields in order; they are read from
objects with the fields in any order and unknown ones ignored, or from arrays of all
fields. A choice without contents is a string, or an object that maps it to null.
-/

namespace Dataflow

class JsonForm (α : Type) where
  encode : α → Json
  decode : Json → Option α

namespace Json

/-! ## Pieces -/

/-- The values of a structure's fields. A field that is missing or stands twice is
refused, and so is a key that is no text. -/
def fields? (names : List String) : Json → Option (List Json)
  | array items => if items.length = names.length then some items else none
  | object fields => do
      if fields.any fun f => f.1.isNone then none
      names.mapM fun name =>
        match fields.filter fun f => f.1 == some name with
        | [(_, value)] => some value
        | _ => none
  | _ => none

/-- The name and the contents of a choice. -/
def choice? : Json → Option (String × Json)
  | object [(some name, contents)] => some (name, contents)
  | _ => none

/-- The name of a choice without contents. -/
def plainChoice? : Json → Option String
  | string (some name) => some name
  | object [(some name, null)] => some name
  | _ => none

def toText? : Json → Option String
  | string s => s
  | _ => none

def toBool? : Json → Option Bool
  | bool b => some b
  | _ => none

def toInt? : Json → Option Int
  | number n => n.toInt?
  | _ => none

/-- A whole number from `low` up to but not including `high`. -/
def toIntIn? (low high : Int) (j : Json) : Option Int := do
  let i ← j.toInt?
  if low ≤ i ∧ i < high then some i else none

def toNatBelow? (limit : Nat) (j : Json) : Option Nat :=
  (j.toIntIn? 0 limit).map Int.toNat

def toSigned? (bits : Nat) (j : Json) : Option (BitVec bits) :=
  (j.toIntIn? (-Numeral.signedLimit bits) (Numeral.signedLimit bits)).map (BitVec.ofInt bits)

def toFloat? (f : FloatFormat) : Json → Option (BitVec f.width)
  | number n => n.toFloat? f
  | _ => none

def toList? {α : Type} [JsonForm α] : Json → Option (List α)
  | array items => items.mapM JsonForm.decode
  | _ => none

def ofList {α : Type} [JsonForm α] (xs : List α) : Json := array (xs.map JsonForm.encode)

/-- Positional while the point stands near the digits, scientific otherwise. -/
def numberStyle (low high : Int) : NumberStyle where
  tie := .toEven
  positional := some (low, high)
  wholeFraction := ['0']

/-- Numbers that are not finite have no JSON form but null. -/
def ofFloat (f : FloatFormat) (low high : Int) (x : BitVec f.width) : Json :=
  if FloatFormat.isFinite x then number ((numberStyle low high).numeral f x) else null

end Json

/-! ## Forms -/

def DataType.jsonName : DataType → String
  | f32 => "F32"
  | f64 => "F64"
  | i32 => "I32"
  | i64 => "I64"
  | bool => "Bool"
  | handle => "Opaque"

instance : JsonForm DataType where
  encode ty := .text ty.jsonName
  decode j := do
    let name ← j.plainChoice?
    DataType.all.find? fun ty => ty.jsonName == name

instance : JsonForm Value where
  encode
    | .f32 x => .record [("F32", .ofFloat binary32 (-5) 13 x)]
    | .f64 x => .record [("F64", .ofFloat binary64 (-4) 16 x)]
    | .i32 x => .record [("I32", .ofInt x.toInt)]
    | .i64 x => .record [("I64", .ofInt x.toInt)]
    | .bool b => .record [("Bool", .bool b)]
  decode j := do
    let (name, contents) ← j.choice?
    match name with
    | "F32" => (contents.toFloat? binary32).map .f32
    | "F64" => (contents.toFloat? binary64).map .f64
    | "I32" => (contents.toSigned? 32).map .i32
    | "I64" => (contents.toSigned? 64).map .i64
    | "Bool" => contents.toBool?.map .bool
    | _ => none

instance : JsonForm PortRole where
  encode role := .text role.name
  decode j := do
    let name ← j.plainChoice?
    [PortRole.input, .output].find? fun role => role.name == name

instance : JsonForm PortRef where
  encode p := .record [("node", .text p.node), ("port", .text p.port)]
  decode j := do
    let [node, port] ← j.fields? ["node", "port"] | none
    return ⟨← node.toText?, ← port.toText?⟩

instance : JsonForm PortSpec where
  encode p :=
    .record [("identifier", .text p.identifier), ("data_type", JsonForm.encode p.dataType)]
  decode j := do
    let [identifier, dataType] ← j.fields? ["identifier", "data_type"] | none
    return ⟨← identifier.toText?, ← JsonForm.decode dataType⟩

instance : JsonForm Version where
  encode v := .array (v.bytes.toList.map fun b => .ofNat b.toNat)
  decode
    | .array items => do
        let bytes ← items.mapM fun item => (item.toNatBelow? 256).map UInt8.ofNat
        if h : bytes.toArray.size = 32 then some ⟨⟨bytes.toArray, h⟩⟩ else none
    | _ => none

instance : JsonForm UnitRequest where
  encode r := .record [("outputs", .ofList r.outputs), ("graph_inputs", .ofList r.graphInputs)]
  decode j := do
    let [outputs, graphInputs] ← j.fields? ["outputs", "graph_inputs"] | none
    return ⟨← outputs.toList?, ← graphInputs.toList?⟩

def OptLevel.jsonName : OptLevel → String
  | none => "None"
  | speed => "Speed"
  | speedAndSize => "SpeedAndSize"

instance : JsonForm OptLevel where
  encode level := .text level.jsonName
  decode j := do
    let name ← j.plainChoice?
    OptLevel.all.find? fun level => level.jsonName == name

instance : JsonForm Options where
  encode o := .record [("opt_level", JsonForm.encode o.optLevel), ("verify", .bool o.verify)]
  decode j := do
    let [optLevel, verify] ← j.fields? ["opt_level", "verify"] | none
    return ⟨← JsonForm.decode optLevel, ← verify.toBool?⟩

instance : JsonForm CacheStats where
  encode s :=
    .record [("hits", .ofNat s.hits), ("misses", .ofNat s.misses),
      ("compilations", .ofNat s.compilations),
      ("globals_compilations", .ofNat s.globalsCompilations)]
  decode j := do
    let items ← j.fields? ["hits", "misses", "compilations", "globals_compilations"]
    let [hits, misses, compilations, globals] ←
      items.mapM (Json.toNatBelow? Numeral.wordLimit) | none
    return ⟨hits, misses, compilations, globals⟩

def toJsonText {α : Type} [JsonForm α] (x : α) : String := (JsonForm.encode x).compact

def ofJsonText? {α : Type} [JsonForm α] (s : String) : Option α := do
  JsonForm.decode (← Json.parse? s)

/-- Reads a text as a value of a type and writes the value again. -/
def reformat? (α : Type) [JsonForm α] (s : String) : Option String :=
  (ofJsonText? s : Option α).map toJsonText

end Dataflow
