import Dataflow.Proofs.Backend.Acceptance

/-!
# With which errors generation can end

`FailsOnly P` says of a computation that every error it may end with is a `P`. The look-ups of an
entry function are made in the plan, the index, the cells and the functions of the nodes. Where
these fit together (`EntryContext.Complete`) all of them succeed, over every symbol table, and
two errors remain: a symbol is taken, or a node is due before one that it reads from.
-/

namespace Dataflow

open Ir

/-! ## Computations that fail in known ways -/

/-- Every error with which the computation may end is a `P`. -/
def FailsOnly {α : Type} (P : UnitError → Prop) (x : Except UnitError α) : Prop :=
  ∀ err, x = .error err → P err

namespace FailsOnly

variable {α β : Type} {P Q : UnitError → Prop} {x : Except UnitError α}

theorem ok (a : α) : FailsOnly P (.ok a) := by
  intro err h
  contradiction

theorem error {err : UnitError} (h : P err) : FailsOnly P (.error err : Except UnitError α) := by
  intro found hfound
  cases hfound
  exact h

theorem mono (h : FailsOnly P x) (himp : ∀ err, P err → Q err) : FailsOnly Q x :=
  fun err herr => himp err (h err herr)

theorem bind {k : α → Except UnitError β} (hx : FailsOnly P x)
    (hk : ∀ a, x = .ok a → FailsOnly P (k a)) : FailsOnly P (x >>= k) := by
  cases x with
  | error err => exact .error (hx err rfl)
  | ok a => exact hk a rfl

theorem mapM {f : α → Except UnitError β} {xs : List α} (h : ∀ x ∈ xs, FailsOnly P (f x)) :
    FailsOnly P (xs.mapM f) := by
  induction xs with
  | nil => exact .ok []
  | cons x xs ih =>
      rw [List.forall_mem_cons] at h
      rw [List.mapM_cons]
      exact .bind h.1 fun y _ => .bind (ih h.2) fun ys _ => .ok (y :: ys)

theorem forM {f : α → Except UnitError Unit} {xs : List α} (h : ∀ x ∈ xs, FailsOnly P (f x)) :
    FailsOnly P (xs.forM f) := by
  induction xs with
  | nil => exact .ok ()
  | cons x xs ih =>
      rw [List.forall_mem_cons] at h
      exact .bind h.1 fun _ _ => ih h.2

end FailsOnly

namespace Generation

variable {α β : Type} {P Q : UnitError → Prop} {x : Generation α}

/-- Over every table the computation fails only with a `P`. -/
def FailsOnly (P : UnitError → Prop) (x : Generation α) : Prop :=
  ∀ t, Dataflow.FailsOnly P (x.run t).1

theorem FailsOnly.mono (h : FailsOnly P x) (himp : ∀ err, P err → Q err) : FailsOnly Q x :=
  fun t => (h t).mono himp

theorem FailsOnly.bind {k : α → Generation β} (hx : FailsOnly P x)
    (hk : ∀ a t t', x.run t = (.ok a, t') → FailsOnly P (k a)) : FailsOnly P (x >>= k) := by
  intro t
  cases hrun : x.run t with
  | mk result t₁ =>
      cases result with
      | error err =>
          rw [run_bind_of_error hrun]
          exact .error (hx t err (by rw [hrun]))
      | ok a =>
          rw [run_bind_of_ok hrun]
          exact hk a t t₁ hrun t₁

theorem FailsOnly.ofExcept {y : Except UnitError α} (h : Dataflow.FailsOnly P y) :
    FailsOnly P (ofExcept y) :=
  fun _ => h

theorem failsOnly_pure (a : α) : FailsOnly P (pure a : Generation α) :=
  fun _ => .ok a

theorem failsOnly_throw {err : UnitError} (h : P err) : FailsOnly P (throw err : Generation α) :=
  fun _ => .error h

theorem failsOnly_declareFunction (hP : ∀ error, P (.symbol error)) (name : String)
    (linkage : Linkage) (params : List Ty) : FailsOnly P (declareFunction name linkage params) := by
  intro t
  change Dataflow.FailsOnly P ((t.declareFunction name linkage params).1.mapError .symbol)
  cases (t.declareFunction name linkage params).1 with
  | error err => exact .error (hP err)
  | ok id => exact .ok id

theorem failsOnly_declareCell (hP : ∀ error, P (.symbol error)) (name : String)
    (linkage : Linkage) : FailsOnly P (declareCell name linkage) := by
  intro t
  change Dataflow.FailsOnly P ((t.declareCell name linkage).1.mapError .symbol)
  cases (t.declareCell name linkage).1 with
  | error err => exact .error (hP err)
  | ok known => exact .ok known

end Generation

/-! ## Errors of a request -/

/-- The error names what is wrong with the ports that a request asks for. -/
def UnitError.IsOfRequest : UnitError → Prop
  | .emptyRequest | .unknownPort .. | .unsupportedType .. | .partialGraphInput ..
  | .rerouteRequest .. => True
  | _ => False

theorem failsOnly_nativeType (port : PortRef) (ty : DataType) :
    FailsOnly UnitError.IsOfRequest (nativeType port ty) := by
  unfold nativeType
  split
  · exact .error trivial
  · exact .ok _

theorem failsOnly_outputType (g : Graph) (port : PortRef) :
    FailsOnly UnitError.IsOfRequest (outputType g port) := by
  unfold outputType
  split
  · exact .ok _
  · exact .error trivial

theorem failsOnly_forPorts (ports : List TypedPort) :
    FailsOnly UnitError.IsOfRequest (RecordLayout.forPorts ports) := by
  unfold RecordLayout.forPorts
  split
  · exact .ok _
  · exact .error trivial

theorem failsOnly_resolveOutput (g : Graph) (port : PortRef) :
    FailsOnly UnitError.IsOfRequest (resolveOutput g (Index.build g) port) := by
  refine .bind (failsOnly_outputType g port) fun ty _ => ?_
  refine .bind (failsOnly_nativeType port ty) fun _ _ => ?_
  refine .bind ?_ fun _ _ => .ok _
  change FailsOnly _ (followReroutes g (Index.build g) port g.rerouteNames port)
  rw [followReroutes_build]
  split
  · exact .ok _
  · exact .error trivial

theorem Bindings.failsOnly_designate (g : Graph) (ix : Index) (port : PortRef) :
    FailsOnly UnitError.IsOfRequest (designate g ix port) := by
  refine .bind (failsOnly_outputType g port) fun _ _ => ?_
  split
  · exact .error trivial
  · exact .ok _

/-! ## Complete contexts -/

namespace EntryContext

variable {c : EntryContext} {g : Graph} {n : Node} {d d' : EntryDraft} {ports : List Port}
  {nodes : List Node} {t t' : SymbolTable}

/-- Every look-up that the entry function calls for has an answer. -/
structure Complete (c : EntryContext) (g : Graph) : Prop where
  /-- The nodes of the order are nodes of the graph, none of them a reroute. -/
  nodes : ∀ n ∈ c.plan.order, g.node? n.name = some n ∧ n.isReroute = false
  /-- The outputs of bound nodes have a native type and a field of the input record. -/
  designated : ∀ n ∈ c.plan.order, c.plan.bindings.binds n.name = true → ∀ p ∈ n.outputs,
    ∃ native slot offset, p.dataType.native = some native ∧
      c.plan.bindings.slot? (n.portRef p) = some slot ∧
      c.plan.inputLayout.offset? slot = some offset
  /-- Called nodes have code, which is found by their name. -/
  emits : ∀ n ∈ c.plan.called, n.Emits
  functions : ∀ n ∈ c.plan.called, ∃ f, c.functions.lookup n.name = some f
  /-- The inputs of called nodes that no data reaches have cells. -/
  cells : ∀ n ∈ c.plan.called, ∀ p ∈ n.inputs, c.index.dataOrigin? (n.portRef p) = none →
    ∃ cell, c.storage.cell? (n.portRef p) = some cell
  /-- What is requested are outputs of these nodes, each with a field of the output record. -/
  sources : ∀ typed ∈ c.plan.outputs, ∃ n ∈ c.plan.order, ∃ p ∈ n.outputs, typed.1 = n.portRef p
  fields : c.plan.outputs.length ≤ c.plan.outputLayout.fields.length

/-- The symbols stand against the entry function, or the order does. -/
inductive Refuses (c : EntryContext) : UnitError → Prop
  | symbol (error : SymbolError) : c.Refuses (.symbol error)
  | cycle (n : Node) : c.Refuses (c.cycleAt n)

theorem mem_called (hn : n ∈ c.plan.order) (hbinds : ¬ c.plan.bindings.binds n.name = true) :
    n ∈ c.plan.called :=
  List.mem_filter.2 ⟨hn, by simpa using hbinds⟩

/-! ## The nodes in turn -/

theorem Complete.loadBound (hc : c.Complete g) (hn : n ∈ c.plan.order)
    (hbinds : c.plan.bindings.binds n.name = true) (hports : ∀ p ∈ ports, p ∈ n.outputs) :
    FailsOnly c.Refuses (c.loadBound n d ports) := by
  induction ports generalizing d with
  | nil => exact .ok d
  | cons p ports ih =>
      rw [List.forall_mem_cons] at hports
      obtain ⟨native, slot, offset, hnative, hslot, hoffset⟩ :=
        hc.designated n hn hbinds p hports.1
      unfold EntryContext.loadBound
      simp only [hslot, nativeType_eq_ok_iff.2 hnative, hoffset, Bind.bind, Except.bind]
      exact ih hports.2

theorem Complete.argument (hc : c.Complete g) (hn : n ∈ c.plan.called) {p : Port}
    (hp : p ∈ n.inputs) : Generation.FailsOnly c.Refuses (c.argument n d p) := by
  have hnative := (hc.emits n hn).native (show p ∈ n.ports .input from hp)
  obtain ⟨ty, hty⟩ := DataType.exists_native_iff.2 hnative
  have htype : nativeType (n.portRef p) p.dataType = .ok ty := nativeType_eq_ok_iff.2 hty
  unfold EntryContext.argument
  refine .bind (.ofExcept (htype ▸ .ok ty)) fun _ _ _ _ => ?_
  cases horigin : c.index.dataOrigin? (n.portRef p) with
  | some origin =>
      cases hvalue : d.values.lookup origin with
      | none =>
          simp only [hvalue]
          exact Generation.failsOnly_throw (Refuses.cycle n)
      | some v =>
          simp only [hvalue]
          exact Generation.failsOnly_pure (v, d)
  | none =>
      obtain ⟨cell, hcell⟩ := hc.cells n hn p hp horigin
      simp only [hcell]
      exact .bind (Generation.failsOnly_declareCell .symbol _ _) fun _ _ _ _ =>
        Generation.failsOnly_pure _

theorem Complete.arguments (hc : c.Complete g) (hn : n ∈ c.plan.called)
    (hports : ∀ p ∈ ports, p ∈ n.inputs) :
    Generation.FailsOnly c.Refuses (c.arguments n d ports) := by
  induction ports generalizing d with
  | nil => exact Generation.failsOnly_pure ([], d)
  | cons p ports ih =>
      rw [List.forall_mem_cons] at hports
      unfold EntryContext.arguments
      exact .bind (hc.argument hn hports.1) fun _ _ _ _ =>
        .bind (ih hports.2) fun _ _ _ _ => Generation.failsOnly_pure _

theorem Complete.call (hc : c.Complete g) (hn : n ∈ c.plan.called) :
    Generation.FailsOnly c.Refuses (c.call n d) := by
  obtain ⟨inputs, outputs, -, -, houtputs, -⟩ := hc.emits n hn
  have htypes : n.portTypes .output = .ok outputs := Node.portTypes_eq_ok_iff.2 houtputs
  obtain ⟨f, hf⟩ := hc.functions n hn
  unfold EntryContext.call
  refine .bind (hc.arguments hn fun _ hp => hp) fun _ _ _ _ => ?_
  refine .bind (.ofExcept (htypes ▸ .ok outputs)) fun types _ _ _ => ?_
  simp only [hf]
  exact Generation.failsOnly_pure _

theorem Complete.evaluate (hc : c.Complete g) (hnodes : ∀ n ∈ nodes, n ∈ c.plan.order) :
    Generation.FailsOnly c.Refuses (c.evaluate d nodes) := by
  induction nodes generalizing d with
  | nil => exact Generation.failsOnly_pure d
  | cons n nodes ih =>
      rw [List.forall_mem_cons] at hnodes
      rw [evaluate_cons]
      refine .bind ?_ fun _ _ _ _ => ih hnodes.2
      unfold turn
      split
      · rename_i hbinds
        exact .ofExcept (hc.loadBound hnodes.1 hbinds fun _ hp => hp)
      · rename_i hbinds
        exact hc.call (mem_called hnodes.1 hbinds)

/-! ## The entry function -/

theorem Complete.sources_known (hc : c.Complete g)
    (h : (c.evaluate .start c.plan.order).run t = (.ok d, t')) :
    ∀ typed ∈ c.plan.outputs, typed.1 ∈ d.known := by
  have hstart : EntryDraft.start.Knows [] := by
    intro ref
    simp [EntryDraft.known, EntryDraft.start]
  intro typed htyped
  rw [knows_of_evaluate hstart h]
  exact hc.sources typed htyped

theorem Complete.generate (hc : c.Complete g) (name : String) :
    Generation.FailsOnly c.Refuses (c.generate name) := by
  unfold EntryContext.generate
  refine .bind (Generation.failsOnly_declareFunction .symbol _ _ _) fun _ _ _ _ => ?_
  refine .bind (hc.evaluate fun _ hn => hn) fun d t t' hevaluate => ?_
  obtain ⟨d', hstore⟩ := storeOutputs_of_known (d := d) (hc.sources_known hevaluate)
    (show 0 + c.plan.outputs.length ≤ _ by simpa using hc.fields)
  exact .bind (.ofExcept (hstore ▸ .ok d')) fun _ _ _ _ => Generation.failsOnly_pure _

end EntryContext

end Dataflow
