import Dataflow.Ir.Machine
import Dataflow.Ir.Typing
import Dataflow.Proofs.Scalar.Images

/-!
# Executing code

One equation for each instruction whose operands are known, the binding of parameters
to consecutive values, and what the type check says about straight-line code.
-/

namespace Dataflow.Ir

variable {calls : Calls} {f : Function} {env : Env} {m : Memory}

/-! ## Values -/

theorem Env.get_of_lookup {v : Var} {w : Word} (h : env.lookup v = some w) :
    env.get v = .ok w := by
  rw [Env.get, h]

theorem Env.getRegion_of_lookup {v : Var} {region : Region}
    (h : env.lookup v = some (.address region)) : env.getRegion v = .ok region := by
  simp only [Env.getRegion, Env.get_of_lookup h]
  rfl

theorem Env.getAll_of_lookup {vs : List Var} {ws : List Word}
    (h : List.Forall₂ (fun v w => env.lookup v = some w) vs ws) : env.getAll vs = .ok ws := by
  induction h with
  | nil => rfl
  | cons hv _ ih =>
      simp only [Env.getAll, Env.get_of_lookup hv, ih]
      rfl

theorem Env.lookup_cons_of_lt {v next : Nat} {w : Word} (h : v < next) :
    List.lookup v ((next, w) :: env) = env.lookup v := by
  rw [List.lookup_cons]
  have hne : (v == next) = false := by simpa using Nat.ne_of_lt h
  rw [hne]

/-! ## Bodies -/

theorem runBody_append (is js : List Instr) :
    runBody calls f env m (is ++ js) =
      (runBody calls f env m is).bind fun s => runBody calls f s.1 s.2 js := by
  induction is generalizing env m with
  | nil => rfl
  | cons i is ih =>
      simp only [List.cons_append, runBody]
      cases hstep : i.step calls f env m with
      | error trap => rfl
      | ok s => exact ih

theorem runBody_append_of_ok {is : List Instr} {env' : Env} {m' : Memory}
    (h : runBody calls f env m is = .ok (env', m')) (js : List Instr) :
    runBody calls f env m (is ++ js) = runBody calls f env' m' js := by
  rw [runBody_append, h]
  rfl

theorem runBody_define {v : Var} {op : Operation} {w : Word} (h : op.eval f env m = .ok w)
    (is : List Instr) :
    runBody calls f env m (.define v op :: is) = runBody calls f ((v, w) :: env) m is := by
  simp only [runBody, Instr.step, h]
  rfl

theorem runBody_store {value base : Var} {w : Word} {region : Region} {offset : Nat}
    {m' : Memory} (hvalue : env.lookup value = some w)
    (hbase : env.lookup base = some (.address region)) (h : m.store w region offset = .ok m')
    (is : List Instr) :
    runBody calls f env m (.store value base offset :: is) = runBody calls f env m' is := by
  simp only [runBody, Instr.step, Env.get_of_lookup hvalue, Env.getRegion_of_lookup hbase]
  change (m.store w region offset >>= fun m' => pure (env, m')) >>= _ = _
  rw [h]
  rfl

theorem runBody_call {callee : Nat} {args : List Var} {ws : List Word} {known : Callee}
    {m' : Memory} (hcallee : f.callees[callee]? = some known)
    (hargs : env.getAll args = .ok ws) (h : calls known.id ws m = .ok m') (is : List Instr) :
    runBody calls f env m (.call callee args :: is) = runBody calls f env m' is := by
  simp only [runBody, Instr.step, hcallee, hargs]
  change (calls known.id ws m >>= fun m' => pure (env, m')) >>= _ = _
  rw [h]
  rfl

theorem eval_int {op : IntOp} {x y : Var} {a b w : Word} (hx : env.lookup x = some a)
    (hy : env.lookup y = some b) (h : op.apply a b = .ok w) :
    (Operation.int op x y).eval f env m = .ok w := by
  simp only [Operation.eval, Env.get_of_lookup hx, Env.get_of_lookup hy]
  exact h

theorem eval_float {op : FloatOp} {x y : Var} {a b w : Word} (hx : env.lookup x = some a)
    (hy : env.lookup y = some b) (h : op.apply a b = .ok w) :
    (Operation.float op x y).eval f env m = .ok w := by
  simp only [Operation.eval, Env.get_of_lookup hx, Env.get_of_lookup hy]
  exact h

theorem eval_compareInt {cond : Cond} {x y : Var} {a b w : Word} (hx : env.lookup x = some a)
    (hy : env.lookup y = some b) (h : cond.applyInt a b = .ok w) :
    (Operation.compareInt cond x y).eval f env m = .ok w := by
  simp only [Operation.eval, Env.get_of_lookup hx, Env.get_of_lookup hy]
  exact h

theorem eval_compareFloat {cond : Cond} {x y : Var} {a b w : Word}
    (hx : env.lookup x = some a) (hy : env.lookup y = some b)
    (h : cond.applyFloat a b = .ok w) :
    (Operation.compareFloat cond x y).eval f env m = .ok w := by
  simp only [Operation.eval, Env.get_of_lookup hx, Env.get_of_lookup hy]
  exact h

theorem eval_negate {x : Var} {a w : Word} (hx : env.lookup x = some a)
    (h : a.negate = .ok w) : (Operation.negate x).eval f env m = .ok w := by
  simp only [Operation.eval, Env.get_of_lookup hx]
  exact h

theorem eval_equalsImm {x : Var} {imm : Int} {a w : Word} (hx : env.lookup x = some a)
    (h : a.equalsImm imm = .ok w) : (Operation.equalsImm x imm).eval f env m = .ok w := by
  simp only [Operation.eval, Env.get_of_lookup hx]
  exact h

theorem eval_select {cond x y : Var} {a b test : Word} {taken : Bool}
    (hcond : env.lookup cond = some test) (hx : env.lookup x = some a)
    (hy : env.lookup y = some b) (h : test.isTrue? = some taken) :
    (Operation.select cond x y).eval f env m = .ok (if taken then a else b) := by
  simp only [Operation.eval, Env.get_of_lookup hx, Env.get_of_lookup hy,
    Env.get_of_lookup hcond, bind, Except.bind, h]

/-! ## Memory -/

theorem Memory.load_of_bytes? {ty : Ty} {region : Region} {offset : Nat} {bs : Bytes} {w : Word}
    (hw : w.IsScalar ty) (hbytes : m.bytes? region = some bs)
    (himage : (bs.drop offset).take ty.size = w.image) : m.load ty region offset = .ok w := by
  have hlen : offset + ty.size ≤ bs.length := by
    have h := congrArg List.length himage
    rw [hw.length_image, List.length_take, List.length_drop] at h
    have hpos : 0 < ty.size := by cases ty <;> decide
    omega
  rw [Memory.load, hbytes, Option.bind_some, Bytes.slice?, if_pos hlen]
  dsimp only
  rw [himage, hw.ofBytes_image]

theorem Memory.store_of_bytes? {ty : Ty} {region : Region} {offset : Nat} {bs : Bytes} {w : Word}
    (hw : w.IsScalar ty) (hbytes : m.bytes? region = some bs) :
    m.store w region offset = .ok (m.put region (bs.overwrite offset w.image)) := by
  rw [Memory.store, hw.toBytes_eq, hbytes]

/-! ## Blocks -/

theorem runBlocks_of_no_block {index : Nat} {args : List Word} (h : f.blocks[index]? = none) :
    runBlocks calls f index args env m = .error .badBlock := by
  have hpast : ¬index < f.blocks.length := by simpa using h
  rw [runBlocks, dif_neg hpast]

theorem runBlocks_of_bind_error {index : Nat} {block : Block} {args : List Word} {trap : Trap}
    (hblock : f.blocks[index]? = some block)
    (hbind : bindParams env block.params args = .error trap) :
    runBlocks calls f index args env m = .error trap := by
  obtain ⟨hindex, rfl⟩ := List.getElem?_eq_some_iff.1 hblock
  rw [runBlocks, dif_pos hindex]
  simp only [hbind]

theorem runBlocks_of_bind {index : Nat} {block : Block} {args : List Word} {env' : Env}
    (hblock : f.blocks[index]? = some block)
    (hbind : bindParams env block.params args = .ok env') :
    runBlocks calls f index args env m =
      match runBody calls f env' m block.body with
      | .error trap => .error trap
      | .ok (env, m) =>
          match block.terminator with
          | .leave => .ok m
          | .jump target vars =>
              match env.getAll vars with
              | .error trap => .error trap
              | .ok words =>
                  if index < target then runBlocks calls f target words env m
                  else .error .badBlock
          | .branch cond ifTrue ifFalse =>
              match env.get cond with
              | .error trap => .error trap
              | .ok word =>
                  match word.isTrue? with
                  | none => .error .illTyped
                  | some taken =>
                      if index < (if taken then ifTrue else ifFalse) then
                        runBlocks calls f (if taken then ifTrue else ifFalse) [] env m
                      else .error .badBlock := by
  obtain ⟨hindex, rfl⟩ := List.getElem?_eq_some_iff.1 hblock
  rw [runBlocks, dif_pos hindex]
  simp only [hbind]
  rfl

theorem runBlocks_leave {index : Nat} {params : List (Var × Ty)} {body : List Instr}
    {args : List Word} {env' : Env}
    (hblock : f.blocks[index]? = some ⟨params, body, .leave⟩)
    (hbind : bindParams env params args = .ok env') :
    runBlocks calls f index args env m = (runBody calls f env' m body).map Prod.snd := by
  rw [runBlocks_of_bind hblock hbind]
  cases runBody calls f env' m body <;> rfl

/-! ## Consecutive definitions and parameters -/

/-- Defines the values from `first` on as these words. -/
def Env.extend (env : Env) (first : Nat) : List Word → Env
  | [] => env
  | w :: words => Env.extend ((first, w) :: env) (first + 1) words

theorem Env.lookup_extend_of_lt {v first : Nat} {words : List Word} (h : v < first) :
    (env.extend first words).lookup v = env.lookup v := by
  induction words generalizing env first with
  | nil => rfl
  | cons w words ih =>
      rw [Env.extend, ih (by omega), Env.lookup_cons_of_lt h]

theorem Env.lookup_extend {first k : Nat} {words : List Word} {w : Word}
    (h : words[k]? = some w) : (env.extend first words).lookup (first + k) = some w := by
  induction words generalizing env first k with
  | nil => simp at h
  | cons x words ih =>
      rw [Env.extend]
      cases k with
      | zero =>
          cases h
          rw [Nat.add_zero, Env.lookup_extend_of_lt (Nat.lt_succ_self _)]
          exact List.lookup_cons_self
      | succ k =>
          rw [show first + (k + 1) = first + 1 + k by omega]
          exact ih h

/-- Operations that follow each other evaluate to these words, each in the environment
that the ones before it leave. -/
def Evaluate (f : Function) (m : Memory) :
    Env → Nat → List Operation → List Word → Prop
  | _, _, [], [] => True
  | env, v, op :: ops, w :: words =>
      op.eval f env m = .ok w ∧ Evaluate f m ((v, w) :: env) (v + 1) ops words
  | _, _, _, _ => False

theorem runBody_of_evaluate {v : Nat} {ops : List Operation} {words : List Word}
    (h : Evaluate f m env v ops words) :
    runBody calls f env m (ops.mapIdx fun k op => .define (v + k) op) =
      .ok (env.extend v words, m) := by
  induction ops generalizing env v words with
  | nil =>
      cases words with
      | nil => rfl
      | cons w words => exact h.elim
  | cons op ops ih =>
      cases words with
      | nil => exact h.elim
      | cons w words =>
          rw [List.mapIdx_cons, runBody_define h.1]
          have hrest := ih h.2
          simp only [Nat.add_assoc, Nat.add_comm 1] at hrest
          exact hrest

/-- Parameters in their order, numbered from `first` on. -/
def numbered (first : Nat) (types : List Ty) : List (Var × Ty) :=
  types.mapIdx fun k ty => (first + k, ty)

theorem numbered_cons (first : Nat) (ty : Ty) (types : List Ty) :
    numbered first (ty :: types) = (first, ty) :: numbered (first + 1) types := by
  simp [numbered, List.mapIdx_cons, Nat.add_comm, Nat.add_left_comm]

theorem bindParams_numbered {first : Nat} {types : List Ty} {words : List Word}
    (h : types.length = words.length) :
    bindParams env (numbered first types) words = .ok (env.extend first words) := by
  induction types generalizing first words env with
  | nil =>
      cases words with
      | nil => rfl
      | cons w words => contradiction
  | cons ty types ih =>
      cases words with
      | nil => contradiction
      | cons w words =>
          rw [numbered_cons, bindParams]
          exact ih (by simpa using h)

theorem lookup_numbered_of_lt {first v : Nat} {types : List Ty} {tenv : TypeEnv} (h : v < first) :
    List.lookup v ((numbered first types).reverse ++ tenv) = tenv.lookup v := by
  induction types generalizing first tenv with
  | nil => rfl
  | cons t types ih =>
      rw [numbered_cons, List.reverse_cons, List.append_assoc, List.singleton_append,
        ih (by omega), List.lookup_cons]
      have hne : (v == first) = false := by simpa using Nat.ne_of_lt h
      rw [hne]

theorem lookup_numbered {first : Nat} {types : List Ty} {tenv : TypeEnv} {k : Nat} {ty : Ty}
    (h : types[k]? = some ty) :
    List.lookup (first + k) ((numbered first types).reverse ++ tenv) = some ty := by
  induction types generalizing first k tenv with
  | nil => simp at h
  | cons t types ih =>
      rw [numbered_cons, List.reverse_cons, List.append_assoc, List.singleton_append]
      cases k with
      | zero =>
          cases h
          rw [Nat.add_zero, lookup_numbered_of_lt (Nat.lt_succ_self _)]
          exact List.lookup_cons_self
      | succ k =>
          rw [show first + (k + 1) = first + 1 + k by omega]
          exact ih h

theorem numbered_zero (types : List Ty) :
    (types.mapIdx fun k ty => (k, ty)) = numbered 0 types := by
  simp [numbered]

theorem map_snd_numbered (first : Nat) (types : List Ty) :
    (numbered first types).map Prod.snd = types := by
  induction types generalizing first with
  | nil => rfl
  | cons ty types ih => rw [numbered_cons, List.map_cons, ih]

theorem getElem?_numbered (first k : Nat) (types : List Ty) :
    (numbered first types)[k]? = types[k]?.map fun ty => (first + k, ty) :=
  List.getElem?_mapIdx

theorem take_numbered (first : Nat) (types rest : List Ty) :
    (numbered first (types ++ rest)).take types.length = numbered first types := by
  induction types generalizing first with
  | nil => rfl
  | cons ty types ih => simp [numbered_cons, ih]

theorem drop_numbered (first : Nat) (types rest : List Ty) :
    (numbered first (types ++ rest)).drop types.length =
      numbered (first + types.length) rest := by
  induction types generalizing first with
  | nil => rfl
  | cons ty types ih =>
      simp only [List.cons_append, numbered_cons, List.length_cons, List.drop_succ_cons, ih]
      congr 1
      omega

end Dataflow.Ir
