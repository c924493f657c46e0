import Dataflow.Proofs.Graph.Editing

/-!
# Histories of graphs

A program that edits has graphs at hand that it has created, edited, cloned and asked for their
versions, in any order. Whatever it has done, each of them is orderly
(`histories_keep_graphs_orderly`) and its version is the digest of its present structure
(`histories_keep_versions_current`).
-/

namespace Dataflow

/-- An edit with what it is asked to do. -/
inductive Edit
  | addNode (name : String) (kind : Kind)
  | removeNode (name : String)
  | link (origin target : PortRef)
  | unlink (target : PortRef)
  | setInputValue (ref : PortRef) (value : Value)

namespace Edit

def program : Edit → Editing Unit
  | addNode name kind => discard (Editing.addNode name kind)
  | removeNode name => discard (Editing.removeNode name)
  | link origin target => discard (Editing.link origin target)
  | unlink target => discard (Editing.unlink target)
  | setInputValue ref value => Editing.setInputValue ref value

/-- The graph that an edit makes, or the reason why it makes none. -/
def result (g : Graph) : Edit → Except GraphError Graph
  | addNode name kind => (g.addNode name kind).map (·.2)
  | removeNode name => (g.removeNode name).map (·.2)
  | link origin target => (g.link origin target).map (·.2)
  | unlink target => .ok (g.unlink target).2
  | setInputValue ref value => g.setInputValue ref value

end Edit

namespace Editing

theorem run_discard {α : Type} (x : Editing α) (g : Graph) :
    (discard x).run g = ((x.run g).1.map fun _ => (), (x.run g).2) := by
  have hrun : (discard x).run g = (x >>= fun _ => pure ()).run g := rfl
  rw [hrun, run_bind]
  rcases x.run g with ⟨a | a, g'⟩ <;> rfl

theorem run_discard_of_outcome {α : Type} {x : Editing α} {g : Graph}
    {r : Except GraphError (α × Graph)} (h : x.run g = outcome g r) :
    (discard x).run g = outcome g (r.map fun p => ((), p.2)) := by
  rw [run_discard, h]
  rcases r with e | ⟨a, g'⟩ <;> rfl

end Editing

namespace Edit

variable {g : Graph}

theorem run_program (edit : Edit) (g : Graph) :
    edit.program.run g = Editing.outcome g ((edit.result g).map fun g' => ((), g')) := by
  cases edit with
  | addNode name kind =>
      rw [program, Editing.run_discard_of_outcome (Editing.run_addNode name kind g), result]
      cases g.addNode name kind <;> rfl
  | removeNode name =>
      rw [program, Editing.run_discard_of_outcome (Editing.run_removeNode name g), result]
      cases g.removeNode name <;> rfl
  | link origin target =>
      rw [program, Editing.run_discard_of_outcome (Editing.run_link origin target g), result]
      cases g.link origin target <;> rfl
  | unlink target =>
      rw [program, Editing.run_discard, Editing.run_unlink]
      rfl
  | setInputValue ref value => exact Editing.run_setInputValue ref value g

/-- A refused edit has not touched its graph. -/
theorem graph_of_error {edit : Edit} {error : GraphError}
    (h : (edit.program.run g).1 = .error error) : (edit.program.run g).2 = g := by
  rw [run_program] at h ⊢
  cases hresult : edit.result g with
  | error e => rfl
  | ok g' =>
      rw [hresult] at h
      contradiction

theorem of_map_snd_eq_ok {α : Type} {r : Except GraphError (α × Graph)} {g' : Graph}
    (h : r.map (·.2) = .ok g') : ∃ x, r = .ok (x, g') := by
  rcases r with e | ⟨x, made⟩
  · contradiction
  · cases h
    exact ⟨x, rfl⟩

theorem reachable_of_result (hg : g.Reachable) {edit : Edit} {g' : Graph}
    (h : edit.result g = .ok g') : g'.Reachable := by
  cases edit with
  | addNode name kind =>
      obtain ⟨_, hmade⟩ := of_map_snd_eq_ok h
      exact hg.addNode hmade
  | removeNode name =>
      obtain ⟨_, hmade⟩ := of_map_snd_eq_ok h
      exact hg.removeNode hmade
  | link origin target =>
      obtain ⟨_, hmade⟩ := of_map_snd_eq_ok h
      exact hg.link hmade
  | unlink target =>
      cases h
      exact hg.unlink target
  | setInputValue ref value => exact hg.setInputValue h

theorem reachable_run (hg : g.Reachable) (edit : Edit) : (edit.program.run g).2.Reachable := by
  rw [run_program]
  cases hresult : edit.result g with
  | error e => exact hg
  | ok g' => exact reachable_of_result hg hresult

end Edit

/-! ## Graphs at hand -/

/-- What a program does with the graphs that it has at hand, which are counted from 0. -/
inductive Action
  | create (name : String)
  | clone (k : Nat)
  | edit (k : Nat) (change : Edit)
  | version (k : Nat)

/-- A new graph and a clone come last. A clone has the token of its original, if there is one. -/
def Action.step (graphs : List Graph) : Action → List Graph
  | create name => graphs ++ [.empty name]
  | clone k => graphs ++ graphs[k]?.toList
  | edit k change => graphs.modify k fun g => (change.program.run g).2
  | version k => graphs.modify k fun g => (Editing.version.run g).2

def Action.history (actions : List Action) : List Graph := actions.foldl Action.step []

/-- An edit of a clone leaves the original alone, and a refused one leaves the clone too. -/
example : (Action.history [.create "g", .edit 0 (.addNode "a" (.constant (.i32 7))), .clone 0,
    .edit 1 (.removeNode "a"), .edit 1 (.removeNode "a")]).map (fun g => g.nodes.length) =
      [1, 0] := by
  decide

namespace Action

theorem mem_modify {α : Type} {f : α → α} {xs : List α} {k : Nat} {y : α}
    (h : y ∈ xs.modify k f) : y ∈ xs ∨ ∃ x ∈ xs, y = f x := by
  obtain ⟨j, hj⟩ := List.mem_iff_getElem?.1 h
  rw [List.getElem?_modify] at hj
  obtain ⟨x, hx, hy⟩ := Option.map_eq_some_iff.1 hj
  have hmem := List.mem_of_getElem? hx
  split_ifs at hy with hk
  · exact Or.inr ⟨x, hmem, hy.symm⟩
  · exact Or.inl (hy ▸ hmem)

theorem reachable_step {graphs : List Graph} (h : ∀ g ∈ graphs, g.Reachable) (action : Action) :
    ∀ g ∈ action.step graphs, g.Reachable := by
  intro g hg
  cases action with
  | create name =>
      rcases List.mem_append.1 hg with hg | hg
      · exact h g hg
      · rw [List.mem_singleton.1 hg]
        exact .empty name
  | clone k =>
      rcases List.mem_append.1 hg with hg | hg
      · exact h g hg
      · exact h g (List.mem_of_getElem? (Option.mem_toList.1 hg))
  | edit k change =>
      rcases mem_modify hg with hg | ⟨before, hbefore, rfl⟩
      · exact h g hg
      · exact Edit.reachable_run (h before hbefore) change
  | version k =>
      rcases mem_modify hg with hg | ⟨before, hbefore, rfl⟩
      · exact h g hg
      · exact (h before hbefore).remember

theorem reachable_history (actions : List Action) : ∀ g ∈ history actions, g.Reachable :=
  List.foldlRecOn actions step (motive := fun graphs => ∀ g ∈ graphs, g.Reachable)
    (by simp) fun _ h action _ => reachable_step h action

end Action

/-! ## Orderly graphs -/

/-- What is in order in a graph, told by its nodes, ports and links alone. -/
structure Graph.Orderly (g : Graph) : Prop where
  names_nodup : (g.nodes.map Node.name).Nodup
  found_by_name : ∀ n ∈ g.nodes, g.node? n.name = some n
  identifiers_nodup : ∀ n ∈ g.nodes, ∀ role, ((n.ports role).map Port.identifier).Nodup
  targets_nodup : (g.links.map Link.target).Nodup
  links_typed : ∀ l ∈ g.links, l.origin.node ≠ l.target.node ∧
    ∃ source sink, g.port l.origin .output = .ok source ∧
      g.port l.target .input = .ok sink ∧ source.dataType = sink.dataType
  inputs_hold : ∀ n ∈ g.nodes, ∀ p ∈ n.inputs, p.dataType ≠ .handle →
    ∃ v, p.value = some v ∧ v.dataType = p.dataType
  handles_hold : ∀ n ∈ g.nodes, ∀ p ∈ n.inputs, p.dataType = .handle → p.value = none
  outputs_hold : ∀ n ∈ g.nodes, ∀ p ∈ n.outputs, p.value = none

theorem Graph.WellFormed.orderly {g : Graph} (hg : g.WellFormed) : g.Orderly where
  names_nodup := hg.names_nodup
  found_by_name _ hn := node?_of_mem hg.names_nodup hn
  identifiers_nodup n hn := (hg.nodes_wellFormed n hn).ports_nodup
  targets_nodup := hg.targets_nodup
  links_typed l hl := ⟨(hg.links_wellFormed l hl).apart, (hg.links_wellFormed l hl).typed⟩
  inputs_hold n hn p hp hnative := by
    have hholds := (hg.nodes_wellFormed n hn).inputs_hold p hp
    obtain ⟨zero, hzero⟩ : ∃ zero, p.dataType.zero = some zero := by
      cases htype : p.dataType <;> first | exact ⟨_, rfl⟩ | exact absurd htype hnative
    rw [hzero, Option.map_some, Option.map_eq_some_iff] at hholds
    exact hholds
  handles_hold n hn p hp hhandle := by
    have hholds := (hg.nodes_wellFormed n hn).inputs_hold p hp
    rw [hhandle] at hholds
    exact Option.map_eq_none_iff.1 hholds
  outputs_hold n hn := (hg.nodes_wellFormed n hn).outputs_hold

/-- Whatever has been done, the graphs at hand are orderly, and an edit of one of them that
is refused leaves it as it is, with its version token. -/
theorem histories_keep_graphs_orderly (actions : List Action) :
    (∀ g ∈ Action.history actions, g.Orderly) ∧
      ∀ g ∈ Action.history actions, ∀ (edit : Edit) (error : GraphError),
        (edit.program.run g).1 = .error error → (edit.program.run g).2 = g :=
  ⟨fun g hg => (Action.reachable_history actions g hg).wellFormed.orderly,
    fun _ _ _ _ herror => Edit.graph_of_error herror⟩

/-! ## Version tokens -/

/-- The edits that leave a token at hand where it is: changes of authored values, and all that
are refused. -/
def Edit.KeepsToken (g : Graph) (edit : Edit) : Prop :=
  (∃ ref value, edit = .setInputValue ref value) ∨
    ∃ error, (edit.program.run g).1 = .error error

theorem Edit.KeepsToken.token_eq {g : Graph} {edit : Edit} (h : edit.KeepsToken g) :
    (edit.program.run g).2.token = g.token := by
  rcases h with ⟨ref, value, rfl⟩ | ⟨error, herror⟩
  · rw [run_program]
    cases hresult : (Edit.setInputValue ref value).result g with
    | error e => rfl
    | ok g' =>
        have hset : g.setInputValue ref value = .ok g' := hresult
        rw [Graph.setInputValue_eq_ok hset]
        rfl
  · rw [graph_of_error herror]

theorem Graph.Reachable.run_version {g : Graph} (hg : g.Reachable) :
    (Editing.version.run g).1 = .ok g.computeVersion := by
  rw [Editing.run_version, hg.version_eq]
  rfl

/-- Whatever has been done, asking a graph for its version gives the digest of its present
structure. A token that is at hand is that digest, also after the edits that keep it, and
graphs of one structure have one version, whichever way they were made. -/
theorem histories_keep_versions_current (actions : List Action) :
    (∀ g ∈ Action.history actions, (Editing.version.run g).1 = .ok g.computeVersion) ∧
      (∀ g ∈ Action.history actions, ∀ token, g.token = some token →
        token = g.computeVersion ∧ ∀ edit : Edit, edit.KeepsToken g →
          (edit.program.run g).2.token = some token ∧
            token = (edit.program.run g).2.computeVersion) ∧
      ∀ others, ∀ g ∈ Action.history actions, ∀ h ∈ Action.history others,
        g.name = h.name → g.nodes.map Node.identity = h.nodes.map Node.identity →
          (∀ target, g.linkOrigin? target = h.linkOrigin? target) →
            (Editing.version.run g).1 = (Editing.version.run h).1 := by
  have hreachable := Action.reachable_history
  refine ⟨fun g hg => (hreachable actions g hg).run_version, ?_, ?_⟩
  · intro g hg token htoken
    have hg := hreachable actions g hg
    refine ⟨hg.token_eq token htoken, ?_⟩
    intro edit hkeeps
    have hkept := hkeeps.token_eq.trans htoken
    exact ⟨hkept, (Edit.reachable_run hg edit).token_eq token hkept⟩
  · intro others g hg h hh hname hnodes hlinks
    have hg := hreachable actions g hg
    have hh := hreachable others h hh
    rw [hg.run_version, hh.run_version, Graph.computeVersion, Graph.computeVersion,
      Graph.SameStructure.encoding_eq hg hh ⟨hname, hnodes, hlinks⟩]

end Dataflow
