import Dataflow.Proofs.Unit.EntryDraft

/-!
# What each step of making an entry function does

One lemma for each function of `EntryContext` says everything that it has done when it gives a
result: what it found, and the draft that it went on with. What holds of every entry function
follows from these by induction over the ports and the nodes.
-/

namespace Dataflow

open Ir

namespace EntryContext

open EntryDraft

variable {c : EntryContext} {d d' : EntryDraft} {n : Node} {p : Port} {ports : List Port}
  {t t' : SymbolTable}

/-- A bound output has a field of the input record and is loaded from there. -/
theorem loadBound_cons_eq_ok (h : c.loadBound n d (p :: ports) = .ok d') :
    ∃ slot ty offset, c.plan.bindings.slot? (n.portRef p) = some slot ∧
      nativeType (n.portRef p) p.dataType = .ok ty ∧
      c.plan.inputLayout.offset? slot = some offset ∧
      c.loadBound n (d.defineOutput (n.portRef p) (.load ty 0 offset)) ports = .ok d' := by
  unfold loadBound at h
  simp only at h
  split at h
  · contradiction
  · rename_i slot hslot
    obtain ⟨ty, hty, h₁⟩ := bind_eq_ok h
    split at h₁
    · contradiction
    · rename_i offset hoffset
      exact ⟨slot, ty, offset, hslot, hty, hoffset, h₁⟩

/-- The code that loads the cell of an unconnected input. -/
def cellLoad (d : EntryDraft) (symbol : String) (colocated : Bool) (ty : Ty) : EntryDraft :=
  ((d.addGlobal symbol colocated).define (.globalAddress d.globals.length)).define
    (.load ty d.next 0)

/-- How an argument is obtained: its origin has been computed, or its cell is loaded. -/
theorem argument_eq_ok {v : Var} (h : (c.argument n d p).run t = (.ok (v, d'), t')) :
    ∃ ty, nativeType (n.portRef p) p.dataType = .ok ty ∧
      ((∃ origin, c.index.dataOrigin? (n.portRef p) = some origin ∧
          d.values.lookup origin = some v ∧ d' = d ∧ t' = t) ∨
        (c.index.dataOrigin? (n.portRef p) = none ∧ ∃ cell linkage,
          c.storage.cell? (n.portRef p) = some cell ∧
          t.declareCell cell.symbol .imported = (.ok linkage, t') ∧
          v = d.next + 1 ∧ d' = cellLoad d cell.symbol linkage.isFinal ty)) := by
  unfold argument at h
  simp only at h
  obtain ⟨ty, t₁, hrun, h₁⟩ := Generation.run_bind_eq_ok h
  obtain ⟨hty, rfl⟩ := Generation.run_ofExcept_eq_ok hrun
  refine ⟨ty, hty, ?_⟩
  cases horigin : c.index.dataOrigin? (n.portRef p) with
  | some origin =>
      simp only [horigin] at h₁
      cases hvalue : d.values.lookup origin with
      | none =>
          simp only [hvalue] at h₁
          cases h₁
      | some x =>
          simp only [hvalue] at h₁
          cases h₁
          exact Or.inl ⟨origin, rfl, hvalue, rfl, rfl⟩
  | none =>
      simp only [horigin] at h₁
      cases hcell : c.storage.cell? (n.portRef p) with
      | none =>
          simp only [hcell] at h₁
          cases h₁
      | some cell =>
          simp only [hcell] at h₁
          obtain ⟨linkage, t₂, hdeclare, h₂⟩ := Generation.run_bind_eq_ok h₁
          cases h₂
          exact Or.inr ⟨rfl, cell, linkage, rfl, Generation.run_declareCell_eq_ok hdeclare, rfl,
            rfl⟩

/-- Arguments are obtained one after the other. -/
theorem arguments_cons_eq_ok {vs : List Var}
    (h : (c.arguments n d (p :: ports)).run t = (.ok (vs, d'), t')) :
    ∃ v rest d₁ t₁, (c.argument n d p).run t = (.ok (v, d₁), t₁) ∧
      (c.arguments n d₁ ports).run t₁ = (.ok (rest, d'), t') ∧ vs = v :: rest := by
  obtain ⟨⟨v, d₁⟩, t₁, hfirst, h₁⟩ := Generation.run_bind_eq_ok h
  obtain ⟨⟨rest, d₂⟩, t₂, hrest, h₂⟩ := Generation.run_bind_eq_ok h₁
  cases h₂
  exact ⟨v, rest, d₁, t₁, hfirst, hrest, rfl⟩

/-- The draft with a call of the function, for which the arguments are at hand: one more slot for
each result, and a load from each of them. -/
def callWith (n : Node) (f : Function) (args : List Var) (types : List Ty) (d : EntryDraft) :
    EntryDraft :=
  loadResults n (((outputSlots d types).2.addCallee ⟨f.id, f.params⟩).push
    (.call (outputSlots d types).2.callees.length (args ++ (outputSlots d types).1)))
    d.slots.length n.outputs types

/-- A call obtains the arguments and only then adds code for the call itself. -/
theorem call_eq_ok (h : (c.call n d).run t = (.ok d', t')) :
    ∃ args d₁ types f, (c.arguments n d n.inputs).run t = (.ok (args, d₁), t') ∧
      n.portTypes .output = .ok types ∧ c.functions.lookup n.name = some f ∧
      d' = callWith n f args types d₁ := by
  obtain ⟨⟨args, d₁⟩, t₁, hargs, h₁⟩ := Generation.run_bind_eq_ok h
  obtain ⟨types, t₂, hrun, h₂⟩ := Generation.run_bind_eq_ok h₁
  obtain ⟨htypes, rfl⟩ := Generation.run_ofExcept_eq_ok hrun
  cases hlookup : c.functions.lookup n.name with
  | none =>
      simp only [hlookup] at h₂
      cases h₂
  | some f =>
      simp only [hlookup] at h₂
      cases h₂
      exact ⟨args, d₁, types, f, hargs, htypes, rfl, rfl⟩

/-- A node has its outputs loaded when it is bound, and is called when it is not. -/
theorem evaluate_cons_eq_ok {nodes : List Node}
    (h : (c.evaluate d (n :: nodes)).run t = (.ok d', t')) :
    ∃ d₁ t₁,
      (c.plan.bindings.binds n.name = true ∧ c.loadBound n d n.outputs = .ok d₁ ∧ t₁ = t ∨
        c.plan.bindings.binds n.name = false ∧ (c.call n d).run t = (.ok d₁, t₁)) ∧
      (c.evaluate d₁ nodes).run t₁ = (.ok d', t') := by
  unfold evaluate at h
  split at h
  · rename_i hbinds
    obtain ⟨d₁, t₁, hrun, h₁⟩ := Generation.run_bind_eq_ok h
    obtain ⟨hload, rfl⟩ := Generation.run_ofExcept_eq_ok hrun
    exact ⟨d₁, _, .inl ⟨hbinds, hload, rfl⟩, h₁⟩
  · rename_i hbinds
    obtain ⟨d₁, t₁, hcall, h₁⟩ := Generation.run_bind_eq_ok h
    exact ⟨d₁, t₁, .inr ⟨Bool.eq_false_iff.2 hbinds, hcall⟩, h₁⟩

/-- A requested output has been computed, and its value goes to its field. -/
theorem storeOutputs_cons_eq_ok {field : Nat} {typed : TypedPort} {outputs : List TypedPort}
    (h : c.storeOutputs d field (typed :: outputs) = .ok d') :
    ∃ v offset, d.values.lookup typed.1 = some v ∧
      c.plan.outputLayout.offset? field = some offset ∧
      c.storeOutputs (d.push (.store v 1 offset)) (field + 1) outputs = .ok d' := by
  unfold storeOutputs at h
  split at h
  · rename_i v offset hvalue hoffset
    exact ⟨v, offset, hvalue, hoffset, h⟩
  · contradiction

/-- The entry function whose code is in this draft. -/
def entryOf (id : Nat) (name : String) (d : EntryDraft) : Function where
  id := id
  name := name
  params := [.address, .address]
  slots := d.slots
  globals := d.globals
  callees := d.callees
  blocks := [⟨[(0, .address), (1, .address)], d.body, .leave⟩]

/-- An entry function is declared first; its code evaluates the order of the plan and stores the
requested outputs. -/
theorem generate_eq_ok {name : String} {f : Function}
    (h : (c.generate name).run t = (.ok f, t')) :
    ∃ id t₁ d d', t.declareFunction name .exported [.address, .address] = (.ok id, t₁) ∧
      (c.evaluate .start c.plan.order).run t₁ = (.ok d, t') ∧
      c.storeOutputs d 0 c.plan.outputs = .ok d' ∧ f = entryOf id name d' := by
  obtain ⟨id, t₁, hdeclare, h₁⟩ := Generation.run_bind_eq_ok h
  obtain ⟨d, t₂, hevaluate, h₂⟩ := Generation.run_bind_eq_ok h₁
  obtain ⟨d', t₃, hrun, h₃⟩ := Generation.run_bind_eq_ok h₂
  obtain ⟨hstore, rfl⟩ := Generation.run_ofExcept_eq_ok hrun
  obtain ⟨rfl, rfl⟩ := Generation.run_pure_eq_ok h₃
  exact ⟨id, t₁, d, d', Generation.run_declareFunction_eq_ok hdeclare, hevaluate, hstore, rfl⟩

end EntryContext

end Dataflow
