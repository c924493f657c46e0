/-!
# Options of compilation
-/

namespace Dataflow

/-- How much work goes into better code; the results of code do not depend on it. -/
inductive OptLevel
  | none
  | speed
  | speedAndSize
deriving DecidableEq, Repr

structure Options where
  optLevel : OptLevel := .speed
  /-- Whether functions are type checked before they are defined. -/
  verify : Bool := true
deriving DecidableEq, Repr

namespace OptLevel

def setting : OptLevel → String
  | none => "none"
  | speed => "speed"
  | speedAndSize => "speed_and_size"

def all : List OptLevel := [none, speed, speedAndSize]

def ofSetting? (s : String) : Option OptLevel := all.find? fun level => level.setting == s

end OptLevel

end Dataflow
