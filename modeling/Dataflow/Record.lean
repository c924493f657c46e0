import Dataflow.Port

/-!
# Records

A record holds one field per type, each at the next offset aligned for it, and is as
large as its own alignment rounds it up to. Callers and entry functions exchange
values through records.
-/

namespace Dataflow

structure Field where
  dataType : DataType
  offset : Nat
deriving DecidableEq, Repr

structure RecordLayout where
  fields : List Field
  size : Nat
  align : Nat
deriving DecidableEq, Repr

/-- The least multiple of `align` that is not below `n`. -/
def alignUp (n align : Nat) : Nat := (n + align - 1) / align * align

namespace RecordLayout

/-- Places the fields of `types` after those placed already, and gives the position of
the first type without a native image if there is one. -/
def extend (layout : RecordLayout) : List DataType → Except Nat RecordLayout
  | [] => .ok layout
  | ty :: types =>
      match ty.size with
      | none => .error layout.fields.length
      | some size =>
          let offset := alignUp layout.size size
          extend ⟨layout.fields ++ [⟨ty, offset⟩], offset + size, max layout.align size⟩ types

def ofTypes (types : List DataType) : Except Nat RecordLayout := do
  let packed ← extend ⟨[], 0, 1⟩ types
  return { packed with size := alignUp packed.size packed.align }

variable (layout : RecordLayout)

def count : Nat := layout.fields.length

def offset? (field : Nat) : Option Nat := layout.fields[field]?.map Field.offset

def dataType? (field : Nat) : Option DataType := layout.fields[field]?.map Field.dataType

/-- The eight-byte words a record is allocated in, at least one. -/
def words : Nat := max 1 ((layout.size + 7) / 8)

def allocate : Bytes := List.replicate (8 * layout.words) 0

/-- Writes a field; a position past the last field changes nothing. -/
def write (record : Bytes) (field : Nat) (value : Value) : Bytes :=
  match layout.offset? field with
  | none => record
  | some offset => record.overwrite offset value.toBytes

def read? (record : Bytes) (field : Nat) : Option Value := do
  let f ← layout.fields[field]?
  Value.ofBytes? f.dataType (record.drop f.offset)

end RecordLayout

end Dataflow
