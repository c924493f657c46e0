import Dataflow.Graph.Editing
import Dataflow.Proofs.Graph.Structure

/-!
# What editing in place does

An edit ends as the operation on graphs of the same name does: it makes the graph that this
gives, and where this gives an error it has not touched its graph. All look-ups stand before
the first change.
-/

namespace Dataflow

namespace Editing

variable {α β : Type}

/-- How an edit ends that makes one graph or is refused, which keeps the graph. -/
def outcome (g : Graph) : Except GraphError (α × Graph) → Except GraphError α × Graph
  | .ok (x, g') => (.ok x, g')
  | .error e => (.error e, g)

theorem ok_bind (x : α) (f : α → Except GraphError β) : (Except.ok x >>= f) = f x := rfl

@[simp]
theorem run_get (g : Graph) : (get : Editing Graph).run g = (.ok g, g) := rfl

@[simp]
theorem run_modify (f : Graph → Graph) (g : Graph) :
    (modify f : Editing Unit).run g = (.ok (), f g) := rfl

@[simp]
theorem run_ofExcept (x : Except GraphError α) (g : Graph) : (ofExcept x).run g = (x, g) := rfl

theorem run_bind (x : Editing α) (f : α → Editing β) (g : Graph) :
    (x >>= f).run g = match x.run g with
      | (.ok a, g') => (f a).run g'
      | (.error e, g') => (.error e, g') := by
  rw [ExceptT.run_bind]
  rcases h : x.run g with ⟨a | a, g'⟩
  · simp only [bind, StateT.bind, h]
    rfl
  · simp only [bind, StateT.bind, h]

theorem run_addNode (name : String) (kind : Kind) (g : Graph) :
    (addNode name kind).run g = outcome g (g.addNode name kind) := by
  unfold addNode Graph.addNode touch
  simp only [run_bind, run_get]
  split_ifs with hname
  · rfl
  · cases Node.ofKind name kind <;> rfl

theorem run_removeNode (name : String) (g : Graph) :
    (removeNode name).run g = outcome g (g.removeNode name) := by
  unfold removeNode Graph.removeNode touch
  simp only [run_bind, run_get]
  cases g.node? name <;> rfl

theorem run_link (origin target : PortRef) (g : Graph) :
    (link origin target).run g = outcome g (g.link origin target) := by
  unfold link Graph.link touch port
  simp only [run_bind, run_get, run_ofExcept]
  cases hsource : g.port origin .output with
  | error e => rfl
  | ok source =>
      cases hsink : g.port target .input with
      | error e => simp only [hsink]; rfl
      | ok sink =>
          by_cases htype : source.dataType = sink.dataType
          · by_cases hapart : origin.node = target.node
            · simp only [hsink, htype, hapart, ne_eq, not_true_eq_false, if_true, if_false, ok_bind]
              rfl
            · simp only [hsink, htype, hapart, ne_eq, not_true_eq_false, if_false, ok_bind]
              rfl
          · simp only [hsink, htype, ne_eq, not_false_eq_true, if_true, ok_bind]
            rfl

theorem run_unlink (target : PortRef) (g : Graph) :
    (unlink target).run g = (.ok (g.unlink target).1, (g.unlink target).2) := by
  unfold unlink Graph.unlink touch
  simp only [run_bind, run_get, run_modify]
  cases horigin : g.linkOrigin? target with
  | some origin => rfl
  | none =>
      -- Nothing is taken out where no link leads to the target.
      have hkept : (g.links.filter fun l => l.target != target) = g.links := by
        apply List.filter_eq_self.2
        intro l hl
        by_contra htarget
        have hsome : (g.linkOrigin? target).isSome := by
          rw [Graph.linkOrigin?, Option.isSome_map, List.find?_isSome]
          exact ⟨l, hl, by simpa using htarget⟩
        simp [horigin] at hsome
      simp only [Option.isSome_none, hkept]
      rfl

theorem run_setInputValue (ref : PortRef) (value : Value) (g : Graph) :
    (setInputValue ref value).run g =
      outcome g ((g.setInputValue ref value).map fun g' => ((), g')) := by
  unfold setInputValue Graph.setInputValue port
  simp only [run_bind, run_get, run_ofExcept]
  cases hport : g.port ref .input with
  | error e => rfl
  | ok p =>
      -- The second look-up finds what the first has found.
      obtain ⟨n, hn, hp⟩ := Graph.port_eq_ok_iff.1 hport
      by_cases htype : value.dataType = p.dataType
      · simp only [run_bind, run_get, hn, hp, htype, ne_eq, not_true_eq_false, if_false, ok_bind,
          Option.bind_some]
        rfl
      · simp only [htype, ne_eq, not_false_eq_true, if_true, ok_bind]
        rfl

theorem run_version (g : Graph) : version.run g = (.ok g.version, g.remember) := rfl

end Editing

end Dataflow
