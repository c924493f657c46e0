import Dataflow.Digest

/-!
# Version tokens

The digest that identifies one structure of a graph.
-/

namespace Dataflow

structure Version where
  bytes : Vector UInt8 32
deriving DecidableEq, Repr

namespace Version

def ofStream (stream : Bytes) : Version := ⟨Digest.hash stream⟩

def hex (v : Version) : String := Bytes.toHex v.bytes.toList

/-- The first twelve digits, enough to tell versions apart in messages. -/
def short (v : Version) : String := Bytes.toHex (v.bytes.toList.take 6)

end Version

end Dataflow
