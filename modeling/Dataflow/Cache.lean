import Dataflow.Backend
import Dataflow.Unit.Compiled

/-!
# Compilation cache

Compiled units are kept by version and request, beside the compiled cells of the
version that is being served. Look-ups and compilations are counted.
-/

namespace Dataflow

/-- Compiled cells: their layout, the backend that owns them and their bank. -/
structure CompiledGlobals where
  layout : StorageLayout
  backend : Backend
  bank : Nat
deriving DecidableEq, Repr

structure CacheStats where
  hits : Nat := 0
  misses : Nat := 0
  compilations : Nat := 0
  globalsCompilations : Nat := 0
deriving DecidableEq, Repr

abbrev CacheKey := Version × UnitRequest

structure Cache where
  globals : Option CompiledGlobals
  units : List (CacheKey × CompiledUnit)
  stats : CacheStats
deriving DecidableEq, Repr

namespace CompiledGlobals

def version (c : CompiledGlobals) : Version := c.layout.version

end CompiledGlobals

namespace CompiledUnit

def key (u : CompiledUnit) : CacheKey := (u.version, u.request)

end CompiledUnit

namespace Cache

def empty : Cache := ⟨none, [], {}⟩

variable (c : Cache)

def find? (version : Version) (r : UnitRequest) : Option CompiledUnit :=
  c.units.lookup (version, r)

def contains (version : Version) (r : UnitRequest) : Bool := (c.find? version r).isSome

/-- Looks a unit up and counts the hit or the miss. -/
def get (version : Version) (r : UnitRequest) : Option CompiledUnit × Cache :=
  match c.find? version r with
  | some unit => (some unit, { c with stats := { c.stats with hits := c.stats.hits + 1 } })
  | none => (none, { c with stats := { c.stats with misses := c.stats.misses + 1 } })

/-- Keeps a newly compiled unit under its own key. -/
def insert (unit : CompiledUnit) : Cache :=
  { c with
    units := (unit.key, unit) :: c.units.filter fun entry => entry.1 != unit.key
    stats := { c.stats with compilations := c.stats.compilations + 1 } }

def globals? (version : Version) : Option CompiledGlobals :=
  c.globals.filter fun g => g.version == version

def setGlobals (globals : CompiledGlobals) : Cache :=
  { c with
    globals := some globals
    stats := { c.stats with globalsCompilations := c.stats.globalsCompilations + 1 } }

/-- Takes over what a compilation has left in the backend of the cells. -/
def setBackend (backend : Backend) : Cache :=
  { c with globals := c.globals.map fun g => { g with backend } }

/-- Drops everything compiled for a version and counts the units among it. -/
def invalidate (version : Version) : Nat × Cache :=
  let kept := c.units.filter fun entry => entry.1.1 != version
  (c.units.length - kept.length,
    { c with
      units := kept
      globals := c.globals.filter fun g => g.version != version })

end Cache

end Dataflow
