import Dataflow.Cache
import Dataflow.Text.Quoted

/-!
# Descriptions of compiled code

One line that names what a compiled unit or a set of compiled cells consists of.
-/

namespace Dataflow

def Version.describe (v : Version) : String :=
  "GraphVersion([" ++ String.intercalate ", " (v.bytes.toList.map fun b => Nat.repr b.toNat)
    ++ "])"

def CompiledGlobals.describe (c : CompiledGlobals) : String :=
  "CompiledGlobals \x7b version: " ++ c.version.describe
    ++ s!", cells: {c.layout.cells.length} \x7d"

def CompiledUnit.describe (u : CompiledUnit) : String :=
  "CompiledUnit \x7b version: " ++ u.version.describe ++ ", entry: "
    ++ Text.quoted u.entryName ++ ", nodes: ["
    ++ String.intercalate ", " (u.nodeOrder.map Text.quoted) ++ "] \x7d"

end Dataflow
