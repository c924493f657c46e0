import Dataflow.Index
import Dataflow.Proofs.Kind.Meaning

/-!
# Values of outputs

The value of an output, said by recursion over the graph and without code: a supplied
output has the value supplied for it, and any other one the result of its node's
computation on the values of the node's inputs. An input has the value of the output its
data comes from, or of its cell. Outputs on a circle of computing nodes have no value.

What a node makes of the values of its inputs is left open at first, so that the same is said
of the words that pass between the functions of the nodes in a run.
-/

namespace Dataflow

open Ir

/-- The output has this word as its value where each node makes of its inputs what `apply` says.
A node with a supplied output is not computed, and of several values supplied for one output the
first counts. -/
inductive Graph.HasValueBy (g : Graph) (apply : Node → List Word → Option (List Word))
    (supplied : List (PortRef × Value)) (cells : PortRef → Value) : PortRef → Word → Prop
  | supplied {port : PortRef} {v : Value} :
      supplied.lookup port = some v → HasValueBy g apply supplied cells port v.word
  | computed {port : PortRef} {n : Node} {args results : List Word} {k : Nat} {w : Word} :
      (∀ s ∈ supplied, s.1.node ≠ port.node) → g.node? port.node = some n →
      n.inputs.length = args.length →
      (∀ p x, (p, x) ∈ n.inputs.zip args → ∀ origin, g.resolve? (n.portRef p) = some origin →
        HasValueBy g apply supplied cells origin x) →
      (∀ p x, (p, x) ∈ n.inputs.zip args → g.resolve? (n.portRef p) = none →
        x = (cells (n.portRef p)).word) →
      apply n args = some results → n.outputIndex? port.port = some k →
      results[k]? = some w → HasValueBy g apply supplied cells port w

/-- The output has this word as its value, each node computing what its kind says. -/
abbrev Graph.HasValue (g : Graph) (supplied : List (PortRef × Value)) (cells : PortRef → Value) :
    PortRef → Word → Prop :=
  g.HasValueBy (fun n => n.kind.computation.eval?) supplied cells

/-- A request for the output yields this value: the word at the port behind the reroutes,
read in the type of the output itself. -/
def Graph.Yields (g : Graph) (supplied : List (PortRef × Value)) (cells : PortRef → Value)
    (port : PortRef) (v : Value) : Prop :=
  ∃ source p w, g.resolveFrom? g.rerouteNames port = some source ∧
    g.port port .output = .ok p ∧ g.HasValue supplied cells source w ∧
    Value.ofWord? p.dataType w = some v

namespace Graph

variable {g : Graph} {apply : Node → List Word → Option (List Word)}
  {supplied : List (PortRef × Value)} {cells : PortRef → Value}

theorem exists_mem_of_lookup {port : PortRef} {v : Value} (h : supplied.lookup port = some v) :
    ∃ s ∈ supplied, s.1.node = port.node := by
  obtain ⟨before, after, rfl, -⟩ := List.lookup_eq_some_iff.1 h
  exact ⟨(port, v), by simp, rfl⟩

/-- Two lists of arguments agree where the arguments of every input do. -/
theorem args_unique {inputs : List Port} {args args' : List Word}
    (h : inputs.length = args.length) (h' : inputs.length = args'.length)
    (heq : ∀ p x x', (p, x) ∈ inputs.zip args → (p, x') ∈ inputs.zip args' → x = x') :
    args = args' := by
  induction inputs generalizing args args' with
  | nil =>
      rw [List.length_nil, eq_comm, List.length_eq_zero_iff] at h h'
      rw [h, h']
  | cons p inputs ih =>
      cases args with
      | nil => contradiction
      | cons x args =>
          cases args' with
          | nil => contradiction
          | cons x' args' =>
              rw [heq p x x' List.mem_cons_self List.mem_cons_self]
              congr 1
              refine ih (by simpa using h) (by simpa using h') ?_
              intro q y y' hy hy'
              exact heq q y y' (List.mem_cons_of_mem _ hy) (List.mem_cons_of_mem _ hy')

theorem HasValueBy.unique {port : PortRef} {v w : Word}
    (hv : g.HasValueBy apply supplied cells port v)
    (hw : g.HasValueBy apply supplied cells port w) : v = w := by
  induction hv generalizing w with
  | supplied hlookup =>
      cases hw with
      | supplied hlookup' =>
          rw [hlookup] at hlookup'
          cases hlookup'
          rfl
      | computed hfree =>
          obtain ⟨s, hs, hnode⟩ := exists_mem_of_lookup hlookup
          exact absurd hnode (hfree s hs)
  | computed hfree hnode hlength _ hcells heval hindex hresult ih =>
      cases hw with
      | supplied hlookup =>
          obtain ⟨s, hs, hnode⟩ := exists_mem_of_lookup hlookup
          exact absurd hnode (hfree s hs)
      | computed _ hnode' hlength' horigins' hcells' heval' hindex' hresult' =>
          rw [hnode] at hnode'
          cases hnode'
          have hargs := args_unique hlength hlength' fun p x x' hx hx' => by
            cases hresolve : g.resolve? (_ : PortRef) with
            | none => rw [hcells p x hx hresolve, hcells' p x' hx' hresolve]
            | some origin =>
                exact ih p x hx origin hresolve (horigins' p x' hx' origin hresolve)
          subst hargs
          rw [heval] at heval'
          cases heval'
          rw [hindex] at hindex'
          cases hindex'
          rw [hresult] at hresult'
          cases hresult'
          rfl

theorem Yields.unique {port : PortRef} {v v' : Value} (h : g.Yields supplied cells port v)
    (h' : g.Yields supplied cells port v') : v = v' := by
  obtain ⟨source, p, w, hsource, hp, hw, hv⟩ := h
  obtain ⟨source', p', w', hsource', hp', hw', hv'⟩ := h'
  rw [hsource] at hsource'
  cases hsource'
  rw [hp] at hp'
  cases hp'
  rw [hw.unique hw', hv'] at hv
  cases hv
  rfl

end Graph

end Dataflow
