import Dataflow.Index

/-!
# Evaluation order

A depth-first post-order over the dependencies: a node comes after everything it
needs, as far as cycles allow. Nodes whose values are supplied from outside are
listed, but nothing is needed on their account.
-/

namespace Dataflow.Schedule

/-- How far a traversal has come: the nodes not yet discovered and those listed. -/
structure Progress where
  fresh : List String
  listed : List String
deriving DecidableEq, Repr

/-- Works a stack off. A node met for the first time stays while the undiscovered nodes
it needs are put on top; met again, it is listed. -/
def visit (needs : String → List String) (p : Progress) : List String → Progress
  | [] => p
  | node :: rest =>
      if _h : node ∈ p.fresh then
        let fresh := p.fresh.erase node
        let pending := (needs node).filter fun n => fresh.contains n
        visit needs ⟨fresh, p.listed⟩ (pending ++ node :: rest)
      else if p.listed.contains node then visit needs p rest
      else visit needs ⟨p.fresh, p.listed ++ [node]⟩ rest
termination_by stack => (p.fresh.length, stack.length)
decreasing_by
  · have := List.length_pos_of_mem _h
    apply Prod.Lex.left
    rw [List.length_erase_of_mem _h]
    omega
  · apply Prod.Lex.right
    simp
  · apply Prod.Lex.right
    simp

/-- What a node needs first, given the edges and the nodes supplied from outside. -/
def needs (edges : List (String × String)) (bound : List String) (node : String) :
    List String :=
  if bound.contains node then []
  else (edges.filter fun e => e.1 == node).map Prod.snd

/-- The nodes listed for `roots`, one root after the other. -/
def order (edges : List (String × String)) (nodes bound roots : List String) : List String :=
  (roots.foldl (fun p root => visit (needs edges bound) p [root]) ⟨nodes, []⟩).listed

end Dataflow.Schedule
