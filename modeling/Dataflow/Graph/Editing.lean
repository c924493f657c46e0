import Dataflow.Graph.Version

/-!
# Editing graphs in place

An edit works on its graph step by step: it looks up what it needs, drops the version token and
changes nodes and links. An edit that is refused ends at that step and leaves the graph as the
steps before have made it.
-/

namespace Dataflow

/-- A computation on a graph that may be refused and keeps the graph then. -/
abbrev Editing := ExceptT GraphError (StateM Graph)

namespace Editing

def ofExcept {α : Type} (x : Except GraphError α) : Editing α := ExceptT.mk (pure x)

def port (ref : PortRef) (role : PortRole) : Editing Port := do
  ofExcept ((← get).port ref role)

/-- Drops the version token. -/
def touch : Editing Unit := modify fun g => { g with token := none }

/-- The version, computed unless its token is at hand, which it is afterwards. -/
def version : Editing Version := do
  modify Graph.remember
  return (← get).version

def addNode (name : String) (kind : Kind) : Editing Node := do
  if ((← get).node? name).isSome then throw (.duplicateNode name)
  let node ← ofExcept (Node.ofKind name kind)
  touch
  modify fun g => { g with nodes := g.nodes ++ [node] }
  return node

/-- Takes the node out, then the links at it. -/
def removeNode (name : String) : Editing Node := do
  match (← get).node? name with
  | none => throw (.nodeNotFound name)
  | some node =>
      modify fun g => { g with nodes := g.nodes.filter fun n => n.name != name }
      modify fun g => { g with
        links := g.links.filter fun l => l.target.node != name && l.origin.node != name }
      touch
      return node

/-- Puts a link in and gives the origin of the one that it replaces. -/
def link (origin target : PortRef) : Editing (Option PortRef) := do
  let source ← port origin .output
  let sink ← port target .input
  if source.dataType ≠ sink.dataType then
    throw (.typeMismatch target sink.dataType source.dataType)
  if origin.node = target.node then throw (.selfLink origin target)
  touch
  let replaced := (← get).linkOrigin? target
  modify fun g => { g with links := Graph.insertLink ⟨target, origin⟩ g.links }
  return replaced

/-- Takes a link out. The token is dropped only where there was one. -/
def unlink (target : PortRef) : Editing (Option PortRef) := do
  let removed := (← get).linkOrigin? target
  modify fun g => { g with links := g.links.filter fun l => l.target != target }
  if removed.isSome then touch
  return removed

/-- Sets an authored value. The input is looked up to check the value, and again to set it. -/
def setInputValue (ref : PortRef) (value : Value) : Editing Unit := do
  let expected := (← port ref .input).dataType
  if value.dataType ≠ expected then throw (.typeMismatch ref expected value.dataType)
  match ((← get).node? ref.node).bind fun n => n.port? .input ref.port with
  | none => throw (.portNotFound ref .input)
  | some _ =>
      modify fun g => { g with
        nodes := g.nodes.map fun n => if n.name = ref.node then n.setInput ref.port value else n }

end Editing

end Dataflow
