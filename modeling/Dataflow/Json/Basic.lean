import Dataflow.Decimal.Numeral

/-!
# JSON values and their text

Numbers stay as they are written, so that each reader of a number applies its own
rule. Texts are written compactly; only quotation marks, backslashes and control
characters are escaped.
-/

namespace Dataflow

/-- A JSON value. A string or a key is `none` when one of its escapes names half of a
surrogate pair, which no text contains. -/
inductive Json
  | null
  | bool (b : Bool)
  | number (n : Numeral)
  | string (s : Option String)
  | array (items : List Json)
  | object (fields : List (Option String × Json))
deriving Repr

namespace Json

def text (s : String) : Json := string (some s)

def record (fields : List (String × Json)) : Json :=
  object (fields.map fun f => (some f.1, f.2))

def ofInt (i : Int) : Json := number (.ofInt i)

def ofNat (n : Nat) : Json := ofInt n

def escape (c : Char) : List Char :=
  if c = '"' then ['\\', '"']
  else if c = '\\' then ['\\', '\\']
  else if c = '\x08' then ['\\', 'b']
  else if c = '\x0c' then ['\\', 'f']
  else if c = '\n' then ['\\', 'n']
  else if c = '\r' then ['\\', 'r']
  else if c = '\t' then ['\\', 't']
  else if c.toNat < 32 then
    ['\\', 'u', '0', '0', Nat.digitChar (c.toNat / 16), Nat.digitChar (c.toNat % 16)]
  else [c]

def quoted (s : String) : List Char := '"' :: (s.toList.flatMap escape ++ ['"'])

mutual

def print : Json → List Char
  | null => "null".toList
  | bool b => (if b then "true" else "false").toList
  | number n => n.chars
  | string s => quoted (s.getD "")
  | array items => '[' :: (printItems items ++ [']'])
  | object fields => '\x7b' :: (printFields fields ++ ['\x7d'])

def printItems : List Json → List Char
  | [] => []
  | [item] => print item
  | item :: items => print item ++ ',' :: printItems items

def printFields : List (Option String × Json) → List Char
  | [] => []
  | [(key, value)] => quoted (key.getD "") ++ ':' :: print value
  | (key, value) :: fields =>
      quoted (key.getD "") ++ ':' :: (print value ++ ',' :: printFields fields)

end

def compact (j : Json) : String := String.ofList j.print

end Json

end Dataflow
