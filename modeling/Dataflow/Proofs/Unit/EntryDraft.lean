import Dataflow.Proofs.Unit.NodeFunction
import Dataflow.Unit.EntryFunction

/-!
# Running the entry function in the making

`EntryDraft.Reaches` is the invariant of a run of the entry function: the values that the
draft lists for outputs hold what they stand for, and apart from the stack slots that the draft
has added the memory is as it was. `EntryDraft.LeadsTo` says that a run that has come to the end
of one draft comes to the end of another one or traps before, and composes.
-/

namespace Dataflow

open Ir

/-- A run of an entry function: the function, how its calls are carried out, the memory it
starts from, and which words the outputs are to have. -/
structure EntryRun where
  function : Function
  calls : Calls
  memory : Memory
  means : PortRef → Word → Prop

/-- The values of an entry function that has just been entered. -/
def EntryRun.started : Env := [(1, .address .output), (0, .address .input)]

namespace EntryDraft

/-- The second draft goes on where the first one ends. -/
structure Extends (d d' : EntryDraft) : Prop where
  body : d.body <+: d'.body
  slots : d.slots <+: d'.slots
  globals : d.globals <+: d'.globals
  callees : d.callees <+: d'.callees

/-- The function has everything that the draft refers to. -/
structure Within (d : EntryDraft) (f : Function) : Prop where
  slots : d.slots <+: f.slots
  globals : d.globals <+: f.globals
  callees : d.callees <+: f.callees

/-- A run has come to the end of the draft's body with these values and this memory. -/
structure Reaches (R : EntryRun) (d : EntryDraft) (env : Env) (m : Memory) : Prop where
  runs : runBody R.calls R.function EntryRun.started R.memory d.body = .ok (env, m)
  two_le_next : 2 ≤ d.next
  input : env.lookup 0 = some (.address .input)
  output : env.lookup 1 = some (.address .output)
  inputRecord : m.input = R.memory.input
  outputRecord : m.output = R.memory.output
  cells : m.cells = R.memory.cells
  slotCount : m.slots.length = R.memory.slots.length
  laterSlots : ∀ k, d.slots.length ≤ k → m.slots[k]? = R.memory.slots[k]?
  values : ∀ port v, d.values.lookup port = some v →
    v < d.next ∧ ∃ w, env.lookup v = some w ∧ R.means port w

/-- A run traps before the end of the draft's body. -/
def Traps (R : EntryRun) (d : EntryDraft) : Prop :=
  ∃ trap, runBody R.calls R.function EntryRun.started R.memory d.body = .error trap

/-- Values below those of the first draft are not defined again. -/
structure Keeps (d : EntryDraft) (env : Env) (d' : EntryDraft) (env' : Env) : Prop where
  next_le : d.next ≤ d'.next
  lookup_eq : ∀ v : Nat, v < d.next → env'.lookup v = env.lookup v

variable {R : EntryRun} {d d' d'' : EntryDraft} {env env' env'' : Env} {m : Memory}

theorem Extends.refl (d : EntryDraft) : d.Extends d :=
  ⟨List.prefix_rfl, List.prefix_rfl, List.prefix_rfl, List.prefix_rfl⟩

theorem Extends.trans (h : d.Extends d') (h' : d'.Extends d'') : d.Extends d'' :=
  ⟨h.body.trans h'.body, h.slots.trans h'.slots, h.globals.trans h'.globals,
    h.callees.trans h'.callees⟩

theorem Extends.within {f : Function} (h : d.Extends d') (h' : d'.Within f) : d.Within f :=
  ⟨h.slots.trans h'.slots, h.globals.trans h'.globals, h.callees.trans h'.callees⟩

/-- Code that comes later does not undo a trap. -/
theorem Traps.of_prefix (h : Traps R d) (hbody : d.body <+: d'.body) : Traps R d' := by
  obtain ⟨rest, hrest⟩ := hbody
  obtain ⟨trap, htrap⟩ := h
  refine ⟨trap, ?_⟩
  rw [← hrest, runBody_append, htrap]
  rfl

/-- Slots added for some types have their sizes. -/
theorem getElem?_slots {slots all : List Nat} {types : List Ty}
    (h : slots ++ types.map Ty.size <+: all) {k : Nat} {ty : Ty} (hk : types[k]? = some ty) :
    all[slots.length + k]? = some ty.size := by
  obtain ⟨rest, rfl⟩ := h
  obtain ⟨hlt, -⟩ := List.getElem?_eq_some_iff.1 hk
  rw [List.append_assoc, List.getElem?_append_right (Nat.le_add_right _ _),
    Nat.add_sub_cancel_left, List.getElem?_append_left (by rw [List.length_map]; exact hlt),
    List.getElem?_map, hk]
  rfl

theorem Keeps.refl (d : EntryDraft) (env : Env) : d.Keeps env d env :=
  ⟨Nat.le_refl _, fun _ _ => rfl⟩

theorem Keeps.trans (h : d.Keeps env d' env') (h' : d'.Keeps env' d'' env'') :
    d.Keeps env d'' env'' := by
  refine ⟨Nat.le_trans h.next_le h'.next_le, ?_⟩
  intro v hv
  rw [h'.lookup_eq v (Nat.lt_of_lt_of_le hv h.next_le), h.lookup_eq v hv]

theorem Keeps.define (d : EntryDraft) (env : Env) (op : Operation) (w : Word) :
    d.Keeps env (d.define op) ((d.next, w) :: env) :=
  ⟨Nat.le_succ _, fun _ hv => Env.lookup_cons_of_lt hv⟩

/-! ## One step -/

theorem Reaches.define (h : Reaches R d env m) {op : Operation} {w : Word}
    (hop : op.eval R.function env m = .ok w) :
    Reaches R (d.define op) ((d.next, w) :: env) m := by
  have htwo := h.two_le_next
  refine { h with
    runs := ?_
    two_le_next := Nat.le_succ_of_le htwo
    input := ?_
    output := ?_
    values := ?_ }
  · change runBody _ _ _ _ (d.body ++ [.define d.next op]) = _
    rw [runBody_append_of_ok h.runs, runBody_define hop]
    rfl
  · rw [Env.lookup_cons_of_lt (Nat.lt_of_lt_of_le Nat.zero_lt_two htwo)]
    exact h.input
  · rw [Env.lookup_cons_of_lt (Nat.lt_of_lt_of_le Nat.one_lt_two htwo)]
    exact h.output
  · intro port v hv
    obtain ⟨hlt, x, hx, hmeans⟩ := h.values port v hv
    exact ⟨Nat.lt_succ_of_lt hlt, x, by rw [Env.lookup_cons_of_lt hlt]; exact hx, hmeans⟩

theorem Reaches.defineOutput (h : Reaches R d env m) {port : PortRef} {op : Operation}
    {w : Word} (hop : op.eval R.function env m = .ok w) (hmeans : R.means port w) :
    Reaches R (d.defineOutput port op) ((d.next, w) :: env) m := by
  have hdefine := h.define hop
  refine { hdefine with values := ?_ }
  intro other v hv
  change List.lookup other ((port, d.next) :: d.values) = some v at hv
  rw [List.lookup_cons] at hv
  split at hv
  · rename_i hother
    cases hv
    rw [beq_iff_eq.1 hother]
    exact ⟨Nat.lt_succ_self _, w, List.lookup_cons_self, hmeans⟩
  · exact hdefine.values other v hv

section

variable (h : Reaches R d env m) {callee : Nat} {args : List Var} {words : List Word}
  {known : Callee} (hcallee : R.function.callees[callee]? = some known)
  (hargs : List.Forall₂ (fun v w => env.lookup v = some w) args words)

include h hcallee hargs

/-- A call that only fills slots of the draft. -/
theorem Reaches.call {images : List Bytes} {start : Nat}
    (hslots : start + images.length ≤ d.slots.length)
    (hcall : R.calls known.id words m = .ok (m.fillSlots start images)) :
    Reaches R (d.push (.call callee args)) env (m.fillSlots start images) := by
  obtain ⟨hinput, houtput, hcells⟩ := m.fillSlots_frame start images
  refine { h with
    runs := ?_
    inputRecord := hinput.trans h.inputRecord
    outputRecord := houtput.trans h.outputRecord
    cells := hcells.trans h.cells
    slotCount := (Memory.length_fillSlots m start images).trans h.slotCount
    laterSlots := ?_ }
  · change runBody _ _ _ _ (d.body ++ [.call callee args]) = _
    rw [runBody_append_of_ok h.runs, runBody_call hcallee (Env.getAll_of_lookup hargs) hcall]
    rfl
  · intro k hk
    rw [Memory.getElem?_fillSlots_of_ge (Nat.le_trans hslots hk)]
    exact h.laterSlots k hk

theorem Reaches.traps_call {trap : Trap} (hcall : R.calls known.id words m = .error trap) :
    Traps R (d.push (.call callee args)) := by
  refine ⟨trap, ?_⟩
  change runBody _ _ _ _ (d.body ++ [.call callee args]) = _
  rw [runBody_append_of_ok h.runs]
  simp only [runBody, Instr.step, hcallee, Env.getAll_of_lookup hargs]
  change (R.calls known.id words m >>= _) >>= _ = _
  rw [hcall]
  rfl

end

/-! ## Several steps -/

/-- A run that has come to the end of `d` comes to the end of `d'`, and then `proceeds` holds, or it
traps before, and then `sticks` holds. -/
structure LeadsTo (R : EntryRun) (proceeds sticks : Prop) (d d' : EntryDraft) : Prop where
  continues : d.Extends d'
  reaches : ∀ env m, d'.Within R.function → Reaches R d env m →
    (proceeds ∧ ∃ env' m', Reaches R d' env' m') ∨ sticks ∧ Traps R d'

variable {proceeds proceeds' proceeds'' sticks sticks' sticks'' : Prop}

theorem LeadsTo.refl (R : EntryRun) (hproceeds : proceeds) (d : EntryDraft) :
    LeadsTo R proceeds sticks d d :=
  ⟨.refl d, fun env m _ h => .inl ⟨hproceeds, env, m, h⟩⟩

theorem LeadsTo.trans (h : LeadsTo R proceeds sticks d d')
    (h' : LeadsTo R proceeds' sticks' d' d'')
    (hproceeds : proceeds → proceeds' → proceeds'') (hsticks : sticks ∨ sticks' → sticks'') :
    LeadsTo R proceeds'' sticks'' d d'' := by
  refine ⟨h.continues.trans h'.continues, ?_⟩
  intro env m hwithin hreaches
  rcases h.reaches env m (h'.continues.within hwithin) hreaches with
    ⟨hfirst, env', m', hreaches'⟩ | ⟨hstuck, htraps⟩
  · rcases h'.reaches env' m' hwithin hreaches' with ⟨hrest, hend⟩ | ⟨hstuck, htraps⟩
    · exact .inl ⟨hproceeds hfirst hrest, hend⟩
    · exact .inr ⟨hsticks (.inr hstuck), htraps⟩
  · exact .inr ⟨hsticks (.inl hstuck), htraps.of_prefix h'.continues.body⟩

end EntryDraft

end Dataflow
