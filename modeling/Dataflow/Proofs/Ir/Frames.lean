import Dataflow.Proofs.Ir.Slots
import Dataflow.Proofs.Unit.Generation

/-!
# Code in a frame of slots

A function that calls no other gets the addresses of consecutive slots and leaves its results
there. It cannot tell where these slots are: `runBlocks_around` compares its run in a memory of
nothing but these slots with its run in a memory that has them among others. So what it makes of
its arguments, `Function.results?`, does not depend on the place it is called from.
-/

namespace Dataflow

open Ir

namespace Ir

/-! ## Addresses that move with the frame -/

/-- The slot of the frame, where the frame begins at `start`. -/
def Region.moved (start : Nat) : Region → Region
  | .slot k => .slot (start + k)
  | region => region

namespace Word

def moved (start : Nat) : Word → Word
  | .address region => .address (region.moved start)
  | w => w

/-- The word is no address, or that of one of the first `count` slots. -/
def Within (count : Nat) (w : Word) : Prop :=
  ∀ region, w = .address region → ∃ k < count, region = .slot k

variable {start count : Nat} {w : Word}

theorem within_of_toBytes (h : w.toBytes.isSome) : w.Within count := by
  rintro region rfl
  contradiction

theorem moved_of_toBytes (h : w.toBytes.isSome) : w.moved start = w := by
  cases w <;> first | rfl | contradiction

theorem toBytes_moved (start : Nat) (w : Word) : (w.moved start).toBytes = w.toBytes := by
  cases w <;> rfl

theorem isTrue?_moved (start : Nat) (w : Word) : (w.moved start).isTrue? = w.isTrue? := by
  cases w <;> rfl

theorem toBytes_ofBytes (ty : Ty) (bs : Bytes) : (ofBytes ty bs).toBytes.isSome := by
  cases ty <;> rfl

theorem map_moved {r : Except Trap Word} (h : ∀ w, r = .ok w → w.toBytes.isSome) :
    r.map (moved start) = r := by
  cases r with
  | error trap => rfl
  | ok w => exact congrArg Except.ok (moved_of_toBytes (h w rfl))

end Word

/-! Arithmetic makes scalars of scalars and nothing of addresses, wherever these point. -/

section

variable (start : Nat) (a b : Word)

theorem IntOp.apply_moved (op : IntOp) :
    op.apply (a.moved start) (b.moved start) = op.apply a b := by
  cases a <;> cases b <;> rfl

theorem FloatOp.apply_moved (op : FloatOp) :
    op.apply (a.moved start) (b.moved start) = op.apply a b := by
  cases a <;> cases b <;> rfl

theorem Cond.applyInt_moved (cond : Cond) :
    cond.applyInt (a.moved start) (b.moved start) = cond.applyInt a b := by
  cases a <;> cases b <;> rfl

theorem Cond.applyFloat_moved (cond : Cond) :
    cond.applyFloat (a.moved start) (b.moved start) = cond.applyFloat a b := by
  cases a <;> cases b <;> rfl

theorem Word.negate_moved : (a.moved start).negate = a.negate := by
  cases a <;> rfl

theorem Word.equalsImm_moved (imm : Int) : (a.moved start).equalsImm imm = a.equalsImm imm := by
  cases a <;> rfl

end

section

variable {a b w : Word}

theorem IntOp.toBytes_apply {op : IntOp} (h : op.apply a b = .ok w) : w.toBytes.isSome := by
  have hmap : ∀ {n : Nat} {r : Except Trap (BitVec n)} {mk : BitVec n → Word},
      (∀ x, (mk x).toBytes.isSome) → r.map mk = .ok w → w.toBytes.isSome := by
    intro n r mk hmk hr
    cases r with
    | error trap => contradiction
    | ok x =>
        cases hr
        exact hmk x
  unfold apply at h
  split at h
  · exact hmap (fun _ => rfl) h
  · exact hmap (fun _ => rfl) h
  · exact hmap (fun _ => rfl) h
  · contradiction

theorem FloatOp.toBytes_apply {op : FloatOp} (h : op.apply a b = .ok w) : w.toBytes.isSome := by
  unfold apply at h
  split at h <;> cases h <;> rfl

theorem Cond.toBytes_applyInt {cond : Cond} (h : cond.applyInt a b = .ok w) :
    w.toBytes.isSome := by
  unfold applyInt at h
  split at h <;> cases h <;> rfl

theorem Cond.toBytes_applyFloat {cond : Cond} (h : cond.applyFloat a b = .ok w) :
    w.toBytes.isSome := by
  unfold applyFloat at h
  split at h <;> cases h <;> rfl

theorem Word.toBytes_negate (h : a.negate = .ok w) : w.toBytes.isSome := by
  unfold negate at h
  split at h <;> cases h <;> rfl

theorem Word.toBytes_equalsImm {imm : Int} (h : a.equalsImm imm = .ok w) :
    w.toBytes.isSome := by
  unfold equalsImm at h
  split at h <;> cases h <;> rfl

theorem Word.toBytes_ofInt {ty : Ty} {imm : Int} (h : Word.ofInt ty imm = some w) :
    w.toBytes.isSome := by
  cases ty <;> cases h <;> rfl

end

namespace Env

def moved (start : Nat) (env : Env) : Env := env.map fun entry => (entry.1, entry.2.moved start)

def Within (count : Nat) (env : Env) : Prop := ∀ v w, env.lookup v = some w → w.Within count

variable {start count : Nat} {env : Env} {v : Var} {w : Word}

theorem lookup_moved (start : Nat) (env : Env) (v : Var) :
    (env.moved start).lookup v = (env.lookup v).map (Word.moved start) := by
  induction env with
  | nil => rfl
  | cons entry env ih =>
      obtain ⟨u, w⟩ := entry
      change List.lookup v ((u, w.moved start) :: Env.moved start env) = _
      rw [List.lookup_cons, List.lookup_cons, ih]
      split <;> rfl

theorem get_moved (start : Nat) (env : Env) (v : Var) :
    (env.moved start).get v = (env.get v).map (Word.moved start) := by
  unfold get
  rw [lookup_moved]
  cases env.lookup v <;> rfl

theorem getRegion_moved (start : Nat) (env : Env) (v : Var) :
    (env.moved start).getRegion v = (env.getRegion v).map (Region.moved start) := by
  unfold getRegion
  rw [get_moved]
  cases env.get v with
  | error trap => rfl
  | ok w => cases w <;> rfl

theorem getAll_moved (start : Nat) (env : Env) (vs : List Var) :
    (env.moved start).getAll vs = (env.getAll vs).map (List.map (Word.moved start)) := by
  induction vs with
  | nil => rfl
  | cons v vs ih =>
      simp only [getAll, ih, get_moved]
      cases env.get v with
      | error trap => rfl
      | ok w => cases env.getAll vs <;> rfl

theorem unary_moved {op : Word → Except Trap Word} (hop : ∀ a : Word, op (a.moved start) = op a)
    (hscalar : ∀ a w, op a = .ok w → w.toBytes.isSome) {x : Var} :
    ((env.moved start).get x >>= op) = (env.get x >>= op).map (Word.moved start) := by
  rw [get_moved]
  cases env.get x with
  | error trap => rfl
  | ok a => exact (hop a).trans (Word.map_moved (hscalar a)).symm

theorem binary_moved {op : Word → Word → Except Trap Word}
    (hop : ∀ a b : Word, op (a.moved start) (b.moved start) = op a b)
    (hscalar : ∀ a b w, op a b = .ok w → w.toBytes.isSome) {x y : Var} :
    ((env.moved start).get x >>= fun a => (env.moved start).get y >>= op a) =
      (env.get x >>= fun a => env.get y >>= op a).map (Word.moved start) := by
  rw [get_moved, get_moved]
  cases env.get x with
  | error trap => rfl
  | ok a =>
      cases env.get y with
      | error trap => rfl
      | ok b => exact (hop a b).trans (Word.map_moved (hscalar a b)).symm

theorem Within.get (h : env.Within count) (hv : env.get v = .ok w) : w.Within count := by
  unfold Env.get at hv
  split at hv
  · contradiction
  · rename_i hlookup
    cases hv
    exact h v _ hlookup

theorem Within.getAll (h : env.Within count) {vs : List Var} {words : List Word}
    (hvs : env.getAll vs = .ok words) : ∀ w ∈ words, w.Within count := by
  induction vs generalizing words with
  | nil =>
      cases hvs
      simp
  | cons v vs ih =>
      unfold Env.getAll at hvs
      cases hv : env.get v with
      | error trap =>
          rw [hv] at hvs
          contradiction
      | ok w =>
          cases hrest : env.getAll vs with
          | error trap =>
              rw [hv, hrest] at hvs
              contradiction
          | ok rest =>
              rw [hv, hrest] at hvs
              cases hvs
              exact List.forall_mem_cons.2 ⟨h.get hv, ih hrest⟩

theorem Within.cons (h : env.Within count) (hw : w.Within count) (v : Var) :
    Within count ((v, w) :: env) := by
  intro u x hx
  rw [List.lookup_cons] at hx
  split at hx
  · cases hx
    exact hw
  · exact h u x hx

/-- An address at hand is that of a slot of the frame. -/
theorem Within.getRegion (h : env.Within count) {region : Region}
    (hv : env.getRegion v = .ok region) : ∃ k < count, region = .slot k := by
  unfold Env.getRegion at hv
  cases hget : env.get v with
  | error trap =>
      rw [hget] at hv
      contradiction
  | ok w =>
      rw [hget] at hv
      cases w <;> cases hv
      exact h.get hget _ rfl

end Env

/-! ## Runs in a frame -/

/-- The function names no slot, no cell and no other function. -/
structure Function.Plain (f : Function) : Prop where
  slots : f.slots = []
  globals : f.globals = []
  callees : f.callees = []

section

variable {calls : Calls} {f : Function} (hf : f.Plain) {m inner : Memory} {start : Nat}
  {env : Env}

theorem Memory.load_around (hstart : start ≤ m.slots.length) {k : Nat}
    (hk : k < inner.slots.length) (ty : Ty) (offset : Nat) :
    (m.around start inner).load ty (.slot (start + k)) offset = inner.load ty (.slot k) offset := by
  simp only [load, bytes?_around hstart hk]

theorem Memory.store_around (hstart : start ≤ m.slots.length) {k : Nat}
    (hk : k < inner.slots.length) (w : Word) (offset : Nat) :
    (m.around start inner).store (w.moved start) (.slot (start + k)) offset =
      (inner.store w (.slot k) offset).map (m.around start) := by
  unfold store
  rw [bytes?_around hstart hk, Word.toBytes_moved]
  cases w.toBytes with
  | none => rfl
  | some image =>
      cases inner.bytes? (.slot k) with
      | none => rfl
      | some bs => exact congrArg Except.ok (put_around hstart hk _)

theorem Memory.slotSizes_store {w : Word} {region : Region} {offset : Nat} {m' : Memory}
    (h : m.store w region offset = .ok m') : m'.slotSizes = m.slotSizes := by
  unfold store at h
  split at h
  · rename_i image bs _ hbytes
    cases h
    cases region with
    | slot k =>
        apply slotSizes_put
        rw [slotSizes, List.getElem?_map, show m.slots[k]? = some bs from hbytes,
          Bytes.length_overwrite]
        rfl
    | _ => rfl
  · contradiction
  · contradiction

include hf

theorem Operation.eval_around (henv : env.Within inner.slots.length)
    (hstart : start ≤ m.slots.length) (op : Operation) :
    op.eval f (env.moved start) (m.around start inner) =
      (op.eval f env inner).map (Word.moved start) := by
  cases op with
  | intConst ty imm =>
      simp only [eval]
      split
      · rfl
      · rename_i w hw
        exact congrArg Except.ok (Word.moved_of_toBytes (Word.toBytes_ofInt hw)).symm
  | f32Const bits => rfl
  | f64Const bits => rfl
  | int op x y =>
      exact Env.binary_moved (fun a b => op.apply_moved start a b) fun _ _ _ => IntOp.toBytes_apply
  | float op x y =>
      exact Env.binary_moved (fun a b => op.apply_moved start a b)
        fun _ _ _ => FloatOp.toBytes_apply
  | negate x =>
      exact Env.unary_moved (fun a => a.negate_moved start) fun _ _ => Word.toBytes_negate
  | compareInt cond x y =>
      exact Env.binary_moved (fun a b => cond.applyInt_moved start a b)
        fun _ _ _ => Cond.toBytes_applyInt
  | compareFloat cond x y =>
      exact Env.binary_moved (fun a b => cond.applyFloat_moved start a b)
        fun _ _ _ => Cond.toBytes_applyFloat
  | equalsImm x imm =>
      exact Env.unary_moved (fun a => a.equalsImm_moved start imm)
        fun _ _ => Word.toBytes_equalsImm
  | select cond x y =>
      simp only [eval, Env.get_moved]
      cases env.get x with
      | error trap => rfl
      | ok a =>
          cases env.get y with
          | error trap => rfl
          | ok b =>
              cases env.get cond with
              | error trap => rfl
              | ok c =>
                  have hmoved := c.isTrue?_moved start
                  cases hc : c.isTrue? with
                  | none =>
                      rw [hc] at hmoved
                      simp only [bind, Except.bind, Except.map, hmoved, hc]
                  | some taken =>
                      rw [hc] at hmoved
                      cases taken <;> simp [bind, Except.bind, Except.map, hmoved, hc]
  | load ty base offset =>
      simp only [eval, Env.getRegion_moved]
      cases hbase : env.getRegion base with
      | error trap => rfl
      | ok region =>
          obtain ⟨k, hk, rfl⟩ := henv.getRegion hbase
          refine (Memory.load_around hstart hk ty offset).trans (Word.map_moved ?_).symm
          intro w hw
          unfold Memory.load at hw
          split at hw <;> cases hw
          exact Word.toBytes_ofBytes ty _
  | globalAddress index => simp [eval, hf.globals, Except.map]
  | slotAddress slot => simp [eval, hf.slots, Except.map]
  | slotLoad ty slot => simp [eval, hf.slots, Except.map]

/-- A value that is computed in the frame points nowhere else. -/
theorem Operation.within_eval {count : Nat} (henv : env.Within count) {op : Operation} {w : Word}
    (h : op.eval f env m = .ok w) : w.Within count := by
  have hscalar : w.toBytes.isSome → w.Within count := Word.within_of_toBytes
  cases op with
  | intConst ty imm =>
      simp only [eval] at h
      split at h <;> cases h
      rename_i hw
      exact hscalar (Word.toBytes_ofInt hw)
  | f32Const bits =>
      cases h
      exact hscalar rfl
  | f64Const bits =>
      cases h
      exact hscalar rfl
  | int op x y =>
      obtain ⟨a, -, h⟩ := bind_eq_ok h
      obtain ⟨b, -, h⟩ := bind_eq_ok h
      exact hscalar (IntOp.toBytes_apply h)
  | float op x y =>
      obtain ⟨a, -, h⟩ := bind_eq_ok h
      obtain ⟨b, -, h⟩ := bind_eq_ok h
      exact hscalar (FloatOp.toBytes_apply h)
  | negate x =>
      obtain ⟨a, -, h⟩ := bind_eq_ok h
      exact hscalar (Word.toBytes_negate h)
  | compareInt cond x y =>
      obtain ⟨a, -, h⟩ := bind_eq_ok h
      obtain ⟨b, -, h⟩ := bind_eq_ok h
      exact hscalar (Cond.toBytes_applyInt h)
  | compareFloat cond x y =>
      obtain ⟨a, -, h⟩ := bind_eq_ok h
      obtain ⟨b, -, h⟩ := bind_eq_ok h
      exact hscalar (Cond.toBytes_applyFloat h)
  | equalsImm x imm =>
      obtain ⟨a, -, h⟩ := bind_eq_ok h
      exact hscalar (Word.toBytes_equalsImm h)
  | select cond x y =>
      obtain ⟨a, ha, h⟩ := bind_eq_ok h
      obtain ⟨b, hb, h⟩ := bind_eq_ok h
      obtain ⟨c, -, h⟩ := bind_eq_ok h
      split at h
      · contradiction
      · rename_i taken _
        cases h
        cases taken with
        | true => exact henv.get ha
        | false => exact henv.get hb
  | load ty base offset =>
      obtain ⟨region, -, h⟩ := bind_eq_ok h
      unfold Memory.load at h
      split at h <;> cases h
      exact hscalar (Word.toBytes_ofBytes ty _)
  | globalAddress index => simp [eval, hf.globals] at h
  | slotAddress slot => simp [eval, hf.slots] at h
  | slotLoad ty slot => simp [eval, hf.slots] at h

theorem Instr.step_around (henv : env.Within inner.slots.length)
    (hstart : start ≤ m.slots.length) (i : Instr) :
    i.step calls f (env.moved start) (m.around start inner) =
      (i.step calls f env inner).map fun s => (s.1.moved start, m.around start s.2) := by
  cases i with
  | define v op =>
      simp only [step, op.eval_around hf henv hstart]
      cases op.eval f env inner <;> rfl
  | store value base offset =>
      simp only [step, Env.get_moved, Env.getRegion_moved]
      cases env.get value with
      | error trap => rfl
      | ok w =>
          cases hbase : env.getRegion base with
          | error trap => rfl
          | ok region =>
              obtain ⟨k, hk, rfl⟩ := henv.getRegion hbase
              change (m.around start inner).store (w.moved start) (.slot (start + k)) offset >>= _ =
                Except.map _ (inner.store w (.slot k) offset >>= _)
              rw [Memory.store_around hstart hk]
              cases inner.store w (.slot k) offset <;> rfl
  | call callee args =>
      simp only [step, hf.callees, List.getElem?_nil]
      rfl

theorem Instr.step_keeps {count : Nat} (henv : env.Within count) {i : Instr}
    {s : Env × Memory} (h : i.step calls f env m = .ok s) :
    s.1.Within count ∧ s.2.slotSizes = m.slotSizes := by
  cases i with
  | define v op =>
      obtain ⟨w, hw, h⟩ := bind_eq_ok h
      cases h
      exact ⟨henv.cons (op.within_eval hf henv hw) v, rfl⟩
  | store value base offset =>
      obtain ⟨w, -, h⟩ := bind_eq_ok h
      obtain ⟨region, -, h⟩ := bind_eq_ok h
      obtain ⟨m', hm', h⟩ := bind_eq_ok h
      cases h
      exact ⟨henv, Memory.slotSizes_store hm'⟩
  | call callee args => simp [step, hf.callees] at h

theorem runBody_keeps {count : Nat} (henv : env.Within count) {is : List Instr}
    {s : Env × Memory} (h : runBody calls f env m is = .ok s) :
    s.1.Within count ∧ s.2.slotSizes = m.slotSizes := by
  induction is generalizing env m with
  | nil =>
      cases h
      exact ⟨henv, rfl⟩
  | cons i is ih =>
      obtain ⟨s', hstep, h⟩ := bind_eq_ok h
      obtain ⟨henv', hsizes'⟩ := i.step_keeps hf henv hstep
      obtain ⟨hwithin, hsizes⟩ := ih henv' h
      exact ⟨hwithin, hsizes.trans hsizes'⟩

theorem runBody_around (henv : env.Within inner.slots.length) (hstart : start ≤ m.slots.length)
    (is : List Instr) :
    runBody calls f (env.moved start) (m.around start inner) is =
      (runBody calls f env inner is).map fun s => (s.1.moved start, m.around start s.2) := by
  induction is generalizing env inner with
  | nil => rfl
  | cons i is ih =>
      simp only [runBody, i.step_around hf henv hstart]
      cases hstep : i.step calls f env inner with
      | error trap => rfl
      | ok s =>
          obtain ⟨henv', hsizes⟩ := i.step_keeps hf henv hstep
          rw [← Memory.length_slotSizes, ← hsizes, Memory.length_slotSizes] at henv'
          exact ih henv'

end

theorem bindParams_moved (start : Nat) (env : Env) (params : List (Var × Ty))
    (args : List Word) :
    bindParams (env.moved start) params (args.map (Word.moved start)) =
      (bindParams env params args).map (Env.moved start) := by
  induction params generalizing env args with
  | nil => cases args <;> rfl
  | cons param params ih =>
      cases args with
      | nil => rfl
      | cons w args => exact ih ((param.1, w) :: env) args

theorem Env.Within.bindParams {count : Nat} {env env' : Env} (henv : env.Within count)
    {params : List (Var × Ty)} {args : List Word} (hargs : ∀ w ∈ args, w.Within count)
    (h : bindParams env params args = .ok env') : env'.Within count := by
  induction params generalizing env args with
  | nil =>
      cases args <;> cases h
      exact henv
  | cons param params ih =>
      cases args with
      | nil => contradiction
      | cons w args =>
          obtain ⟨hw, hargs⟩ := List.forall_mem_cons.1 hargs
          exact ih (henv.cons hw param.1) hargs h

section

variable {calls : Calls} {f : Function} (hf : f.Plain) {m : Memory} {start : Nat}

include hf

/-- From each block on, the run in the frame alone and the run with the frame among other slots go
the same way. -/
theorem runBlocks_around {inner : Memory} {env : Env} {args : List Word} {index : Nat}
    (henv : env.Within inner.slots.length) (hargs : ∀ w ∈ args, w.Within inner.slots.length)
    (hstart : start ≤ m.slots.length) :
    runBlocks calls f index (args.map (Word.moved start)) (env.moved start)
        (m.around start inner) =
      (runBlocks calls f index args env inner).map (m.around start) ∧
    ∀ inner', runBlocks calls f index args env inner = .ok inner' →
      inner'.slotSizes = inner.slotSizes := by
  -- jumps lead to later blocks only
  induction hleft : f.blocks.length - index using Nat.strongRecOn
    generalizing index args env inner with
  | ind left ih =>
      cases hblock : f.blocks[index]? with
      | none =>
          rw [runBlocks_of_no_block hblock, runBlocks_of_no_block hblock]
          exact ⟨rfl, fun _ h => by contradiction⟩
      | some block =>
          have hindex : index < f.blocks.length := (List.getElem?_eq_some_iff.1 hblock).1
          have hmoved := bindParams_moved start env block.params args
          cases hbind : bindParams env block.params args with
          | error trap =>
              rw [hbind] at hmoved
              rw [runBlocks_of_bind_error hblock hbind, runBlocks_of_bind_error hblock hmoved]
              exact ⟨rfl, fun _ h => by contradiction⟩
          | ok entered =>
              rw [hbind] at hmoved
              have hentered := henv.bindParams hargs hbind
              rw [runBlocks_of_bind hblock hbind, runBlocks_of_bind hblock hmoved,
                runBody_around hf hentered hstart]
              cases hbody : runBody calls f entered inner block.body with
              | error trap => exact ⟨rfl, fun _ h => by contradiction⟩
              | ok s =>
                  obtain ⟨env', inner'⟩ := s
                  obtain ⟨henv', hsizes⟩ := runBody_keeps hf hentered hbody
                  have hlength : inner'.slots.length = inner.slots.length := by
                    rw [← Memory.length_slotSizes, hsizes, Memory.length_slotSizes]
                  rw [← hlength] at henv'
                  have hon : ∀ target words, (∀ w ∈ words, w.Within inner'.slots.length) →
                      (if index < target then
                          runBlocks calls f target (words.map (Word.moved start))
                            (env'.moved start) (m.around start inner')
                        else .error .badBlock) =
                        (if index < target then runBlocks calls f target words env' inner'
                          else .error .badBlock).map (m.around start) ∧
                      ∀ last, (if index < target then runBlocks calls f target words env' inner'
                          else .error .badBlock) = .ok last → last.slotSizes = inner.slotSizes := by
                    intro target words hwords
                    by_cases hlater : index < target
                    · rw [if_pos hlater, if_pos hlater]
                      obtain ⟨hrun, hkeeps⟩ :=
                        ih (f.blocks.length - target) (by omega) henv' hwords rfl
                      exact ⟨hrun, fun _ h => (hkeeps _ h).trans hsizes⟩
                    · rw [if_neg hlater, if_neg hlater]
                      exact ⟨rfl, fun _ h => by contradiction⟩
                  simp only [Except.map]
                  cases block.terminator with
                  | leave =>
                      refine ⟨rfl, fun _ h => ?_⟩
                      cases h
                      exact hsizes
                  | jump target vars =>
                      simp only [Env.getAll_moved]
                      cases hwords : env'.getAll vars with
                      | error trap => exact ⟨rfl, fun _ h => by contradiction⟩
                      | ok words => exact hon target words (henv'.getAll hwords)
                  | branch cond ifTrue ifFalse =>
                      simp only [Env.get_moved]
                      cases env'.get cond with
                      | error trap => exact ⟨rfl, fun _ h => by contradiction⟩
                      | ok word =>
                          simp only [Except.map, Word.isTrue?_moved]
                          cases word.isTrue? with
                          | none => exact ⟨rfl, fun _ h => by contradiction⟩
                          | some taken =>
                              exact hon (if taken then ifTrue else ifFalse) []
                                (List.forall_mem_nil _)

end

/-! ## Functions with the same code -/

section

variable {calls : Calls} {f f' : Function} (hslots : f.slots = f'.slots)
  (hglobals : f.globals = f'.globals) (hcallees : f.callees = f'.callees)

include hslots hglobals

theorem Operation.eval_congr (env : Env) (m : Memory) (op : Operation) :
    op.eval f env m = op.eval f' env m := by
  cases op <;> simp only [eval, hslots, hglobals]

include hcallees

theorem Instr.step_congr (env : Env) (m : Memory) (i : Instr) :
    i.step calls f env m = i.step calls f' env m := by
  cases i <;> simp only [step, hcallees, Operation.eval_congr hslots hglobals]

theorem runBody_congr (env : Env) (m : Memory) (is : List Instr) :
    runBody calls f env m is = runBody calls f' env m is := by
  induction is generalizing env m with
  | nil => rfl
  | cons i is ih => simp only [runBody, ih, Instr.step_congr hslots hglobals hcallees]

theorem runBlocks_congr (hblocks : f.blocks = f'.blocks) (index : Nat) (args : List Word)
    (env : Env) (m : Memory) :
    runBlocks calls f index args env m = runBlocks calls f' index args env m := by
  induction hleft : f.blocks.length - index using Nat.strongRecOn
    generalizing index args env m with
  | ind left ih =>
      cases hblock : f.blocks[index]? with
      | none =>
          rw [runBlocks_of_no_block hblock, runBlocks_of_no_block (hblocks ▸ hblock)]
      | some block =>
          have hindex : index < f.blocks.length := (List.getElem?_eq_some_iff.1 hblock).1
          cases hbind : bindParams env block.params args with
          | error trap =>
              rw [runBlocks_of_bind_error hblock hbind,
                runBlocks_of_bind_error (hblocks ▸ hblock) hbind]
          | ok entered =>
              have hon : ∀ target words env m,
                  (if index < target then runBlocks calls f target words env m
                    else .error .badBlock) =
                  if index < target then runBlocks calls f' target words env m
                    else .error .badBlock := by
                intro target words env m
                split
                · exact ih (f.blocks.length - target) (by omega) target words env m rfl
                · rfl
              rw [runBlocks_of_bind hblock hbind, runBlocks_of_bind (hblocks ▸ hblock) hbind,
                runBody_congr hslots hglobals hcallees]
              simp only [hon]

end

end Ir

/-! ## What a function makes of its arguments -/

/-- What a function that stores results of these types makes of its arguments, called with the
slots of a frame. -/
def Ir.Function.results? (f : Function) (types : List Ty) (args : List Word) :
    Option (List Word) :=
  match f.runLeaf (args ++ Memory.slotAddresses 0 types.length) (Memory.frame types) with
  | .error _ => none
  | .ok m => some (List.zipWith Word.ofBytes types m.slots)

/-- It depends on the code of the function only. -/
theorem Ir.Function.results?_congr {f f' : Function} (hf : f.Plain) (hf' : f'.Plain)
    (hblocks : f.blocks = f'.blocks) : f.results? = f'.results? := by
  have hslots : f.slots = f'.slots := hf.slots.trans hf'.slots.symm
  have hglobals : f.globals = f'.globals := hf.globals.trans hf'.globals.symm
  have hcallees : f.callees = f'.callees := hf.callees.trans hf'.callees.symm
  funext types args
  simp only [results?, runLeaf, run, runBlocks_congr hslots hglobals hcallees hblocks]

theorem Ir.Memory.slotAddresses_moved (start count : Nat) :
    (slotAddresses 0 count).map (Word.moved start) = slotAddresses start count := by
  rw [slotAddresses, slotAddresses, List.range'_eq_map_range, List.range'_eq_map_range,
    List.map_map, List.map_map, List.map_map]
  apply List.map_congr_left
  intro k _
  simp [Word.moved, Region.moved]

/-- The contents of slots that have room for words of these types are the images of words. -/
theorem scalars_of_slots {types : List Ty} {slots : List Bytes}
    (h : slots.map List.length = types.map Ty.size) :
    Scalars types (List.zipWith Word.ofBytes types slots) ∧
      (List.zipWith Word.ofBytes types slots).map Word.image = slots := by
  induction types generalizing slots with
  | nil =>
      rw [List.map_nil, List.map_eq_nil_iff] at h
      subst h
      exact ⟨.nil, rfl⟩
  | cons ty types ih =>
      cases slots with
      | nil => contradiction
      | cons slot slots =>
          rw [List.map_cons, List.map_cons, List.cons.injEq] at h
          obtain ⟨hscalars, himages⟩ := ih h.2
          refine ⟨.cons (Word.isScalar_ofBytes ty slot) hscalars, ?_⟩
          rw [List.zipWith_cons_cons, List.map_cons, Word.image_ofBytes h.1, himages]

namespace Ir.Function

variable {f : Function} (hf : f.Plain) {types : List Ty} {args : List Word}
  (hargs : ∀ w ∈ args, w.toBytes.isSome) {m : Memory} {start : Nat}
  (hstart : start ≤ m.slots.length) (hfresh : m.HasFreshSlots start types)

include hf hargs hstart hfresh

/-- In fresh slots of any memory a function runs as in a frame of its own. -/
theorem runLeaf_around :
    f.runLeaf (args ++ Memory.slotAddresses start types.length) m =
      (f.runLeaf (args ++ Memory.slotAddresses 0 types.length) (Memory.frame types)).map
        (m.around start) ∧
    ∀ inner, f.runLeaf (args ++ Memory.slotAddresses 0 types.length) (Memory.frame types) =
      .ok inner → inner.slots.map List.length = types.map Ty.size := by
  have hlength : (Memory.frame types).slots.length = types.length := List.length_map _
  have hwords : (args ++ Memory.slotAddresses 0 types.length).map (Word.moved start) =
      args ++ Memory.slotAddresses start types.length := by
    rw [List.map_append, Memory.slotAddresses_moved,
      List.map_congr_left fun w hw => Word.moved_of_toBytes (hargs w hw), List.map_id']
  have hwithin : ∀ w ∈ args ++ Memory.slotAddresses 0 types.length,
      w.Within (Memory.frame types).slots.length := by
    intro w hw
    rcases List.mem_append.1 hw with hw | hw
    · exact Word.within_of_toBytes (hargs w hw)
    · obtain ⟨k, hk, rfl⟩ := List.mem_map.1 hw
      rintro region ⟨⟩
      rw [List.mem_range'_1] at hk
      exact ⟨k, by omega, rfl⟩
  have hempty : Env.Within (Memory.frame types).slots.length [] := fun _ _ h => by contradiction
  obtain ⟨hrun, hkeeps⟩ := @runBlocks_around (fun _ _ _ => .error .badCall) _ hf m start _ [] _ 0
    hempty hwithin hstart
  rw [hwords, Memory.around_frame hfresh] at hrun
  refine ⟨hrun, fun inner h => (hkeeps inner h).trans ?_⟩
  simp [Memory.slotSizes, Memory.frame, Memory.freshSlots]

theorem runLeaf_of_results {results : List Word} (h : f.results? types args = some results) :
    Scalars types results ∧
      f.runLeaf (args ++ Memory.slotAddresses start types.length) m =
        .ok (m.fillSlots start (results.map Word.image)) := by
  obtain ⟨hrun, hsizes⟩ := runLeaf_around hf hargs hstart hfresh
  unfold results? at h
  split at h
  · contradiction
  · rename_i inner hinner
    cases h
    obtain ⟨hscalars, himages⟩ := scalars_of_slots (hsizes inner hinner)
    have hlength : inner.slots.length = types.length := by
      simpa using congrArg List.length (hsizes inner hinner)
    refine ⟨hscalars, ?_⟩
    rw [hrun, hinner, himages,
      ← Memory.around_eq_fillSlots (by rw [hlength]; exact hfresh.le hstart)]
    rfl

omit hstart hfresh in
theorem scalars_of_results {results : List Word} (h : f.results? types args = some results) :
    Scalars types results :=
  (runLeaf_of_results hf hargs (Nat.zero_le _) (Memory.hasFreshSlots_frame types) h).1

theorem runLeaf_of_no_results (h : f.results? types args = none) :
    ∃ trap, f.runLeaf (args ++ Memory.slotAddresses start types.length) m = .error trap := by
  rw [(runLeaf_around hf hargs hstart hfresh).1]
  unfold results? at h
  split at h
  · rename_i trap htrap
    exact ⟨trap, by rw [htrap]; rfl⟩
  · contradiction

end Ir.Function

end Dataflow
