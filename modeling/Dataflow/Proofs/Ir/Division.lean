import Dataflow.Proofs.Ir.Execution

/-!
# Divisions that a run comes to

`Function.Divides` says that running a function comes to a division of one word by another,
whether or not the division then traps. A run that ends without a trap has come to no division by
zero and to none of the least number by -1.
-/

namespace Dataflow.Ir

/-- Running the instructions comes to a division of these words. -/
inductive BodyDivides (calls : Calls) (f : Function) :
    Env → Memory → List Instr → Word → Word → Prop
  | here {env : Env} {m : Memory} {v x y : Var} {a b : Word} {is : List Instr}
      (hx : env.lookup x = some a) (hy : env.lookup y = some b) :
      BodyDivides calls f env m (.define v (.int .sdiv x y) :: is) a b
  | later {env env' : Env} {m m' : Memory} {i : Instr} {is : List Instr} {a b : Word}
      (hstep : i.step calls f env m = .ok (env', m'))
      (hrest : BodyDivides calls f env' m' is a b) : BodyDivides calls f env m (i :: is) a b

/-- Running on from a block comes to a division of these words. -/
inductive BlocksDivide (calls : Calls) (f : Function) :
    Nat → List Word → Env → Memory → Word → Word → Prop
  | body {index : Nat} {block : Block} {args : List Word} {env env' : Env} {m : Memory}
      {a b : Word} (hblock : f.blocks[index]? = some block)
      (hbind : bindParams env block.params args = .ok env')
      (hbody : BodyDivides calls f env' m block.body a b) :
      BlocksDivide calls f index args env m a b
  | jump {index target : Nat} {block : Block} {args words : List Word} {vars : List Var}
      {env env' after : Env} {m m' : Memory} {a b : Word}
      (hblock : f.blocks[index]? = some block)
      (hbind : bindParams env block.params args = .ok env')
      (hbody : runBody calls f env' m block.body = .ok (after, m'))
      (hjump : block.terminator = .jump target vars) (hwords : after.getAll vars = .ok words)
      (hlater : index < target) (hrest : BlocksDivide calls f target words after m' a b) :
      BlocksDivide calls f index args env m a b
  | branch {index ifTrue ifFalse : Nat} {block : Block} {args : List Word} {cond : Var}
      {word : Word} {taken : Bool} {env env' after : Env} {m m' : Memory} {a b : Word}
      (hblock : f.blocks[index]? = some block)
      (hbind : bindParams env block.params args = .ok env')
      (hbody : runBody calls f env' m block.body = .ok (after, m'))
      (hbranch : block.terminator = .branch cond ifTrue ifFalse)
      (hword : after.get cond = .ok word) (htaken : word.isTrue? = some taken)
      (hlater : index < if taken then ifTrue else ifFalse)
      (hrest : BlocksDivide calls f (if taken then ifTrue else ifFalse) [] after m' a b) :
      BlocksDivide calls f index args env m a b

/-- Running the function, which calls no other, on these arguments comes to a division of these
words. -/
def Function.Divides (f : Function) (args : List Word) (m : Memory) (a b : Word) : Prop :=
  BlocksDivide (fun _ _ _ => .error .badCall) f 0 args [] m a b

/-- The words are integers of one type, and the first divided by the second has a quotient of
that type. -/
def Word.HasQuotient : Word → Word → Prop
  | .i8 x, .i8 y => y ≠ 0 ∧ ¬(x = BitVec.intMin 8 ∧ y = -1)
  | .i32 x, .i32 y => y ≠ 0 ∧ ¬(x = BitVec.intMin 32 ∧ y = -1)
  | .i64 x, .i64 y => y ≠ 0 ∧ ¬(x = BitVec.intMin 64 ∧ y = -1)
  | _, _ => False

theorem IntOp.sdiv_eval_eq_ok {w : Nat} {x y q : BitVec w} (h : IntOp.sdiv.eval x y = .ok q) :
    y ≠ 0 ∧ ¬(x = BitVec.intMin w ∧ y = -1) := by
  by_cases hunsafe : y = 0 ∨ (x = BitVec.intMin w ∧ y = -1)
  · simp only [eval, if_pos hunsafe] at h
    contradiction
  · exact not_or.1 hunsafe

theorem Word.hasQuotient_of_apply {a b w : Word} (h : IntOp.sdiv.apply a b = .ok w) :
    a.HasQuotient b := by
  have hquotient : ∀ {n : Nat} {mk : BitVec n → Word} {x y : BitVec n},
      (IntOp.sdiv.eval x y).map mk = .ok w → y ≠ 0 ∧ ¬(x = BitVec.intMin n ∧ y = -1) := by
    intro n mk x y hmap
    cases heval : IntOp.sdiv.eval x y with
    | error trap =>
        rw [heval] at hmap
        contradiction
    | ok q => exact IntOp.sdiv_eval_eq_ok heval
  unfold IntOp.apply at h
  split at h
  · exact hquotient h
  · exact hquotient h
  · exact hquotient h
  · contradiction

variable {calls : Calls} {f : Function} {env : Env} {m m' : Memory} {a b : Word}

theorem BodyDivides.hasQuotient {is : List Instr} (h : BodyDivides calls f env m is a b)
    {s : Env × Memory} (hrun : runBody calls f env m is = .ok s) : a.HasQuotient b := by
  induction h with
  | @here env m v x y a b is hx hy =>
      cases happly : IntOp.sdiv.apply a b with
      | error trap =>
          have heval : (Operation.int .sdiv x y).eval f env m = .error trap := by
            simp only [Operation.eval, Env.get_of_lookup hx, Env.get_of_lookup hy]
            exact happly
          simp only [runBody, Instr.step, heval] at hrun
          contradiction
      | ok w => exact Word.hasQuotient_of_apply happly
  | later hstep _ ih =>
      simp only [runBody, hstep] at hrun
      exact ih hrun

theorem BlocksDivide.hasQuotient {index : Nat} {args : List Word}
    (h : BlocksDivide calls f index args env m a b)
    (hrun : runBlocks calls f index args env m = .ok m') : a.HasQuotient b := by
  induction h with
  | body hblock hbind hbody =>
      rw [runBlocks_of_bind hblock hbind] at hrun
      split at hrun
      · contradiction
      · rename_i hended
        exact hbody.hasQuotient hended
  | jump hblock hbind hbody hjump hwords hlater _ ih =>
      rw [runBlocks_of_bind hblock hbind, hbody] at hrun
      simp only [hjump, hwords, if_pos hlater] at hrun
      exact ih hrun
  | branch hblock hbind hbody hbranch hword htaken hlater _ ih =>
      rw [runBlocks_of_bind hblock hbind, hbody] at hrun
      simp only [hbranch, hword, htaken, if_pos hlater] at hrun
      exact ih hrun

/-- Operations that are evaluated one after the other come to each division among them. -/
theorem BodyDivides.of_evaluate {v k : Nat} {ops : List Operation} {words : List Word}
    (h : Evaluate f m env v ops words) {x y : Var} (hop : ops[k]? = some (.int .sdiv x y))
    (hx : (env.extend v (words.take k)).lookup x = some a)
    (hy : (env.extend v (words.take k)).lookup y = some b) (is : List Instr) :
    BodyDivides calls f env m ((ops.mapIdx fun k op => .define (v + k) op) ++ is) a b := by
  induction ops generalizing env v k words with
  | nil => contradiction
  | cons op ops ih =>
      cases words with
      | nil => exact h.elim
      | cons w words =>
          rw [List.mapIdx_cons, List.cons_append]
          cases k with
          | zero =>
              cases hop
              exact .here hx hy
          | succ k =>
              have hstep : (Instr.define v op).step calls f env m = .ok ((v, w) :: env, m) := by
                simp only [Instr.step, h.1]
                rfl
              have hrest := ih h.2 hop hx hy
              simp only [Nat.add_assoc, Nat.add_comm 1] at hrest
              exact .later hstep hrest

/-- A run that ends has divided words that have a quotient. -/
theorem Function.Divides.hasQuotient {args : List Word} (h : f.Divides args m a b)
    (hrun : f.runLeaf args m = .ok m') : a.HasQuotient b :=
  BlocksDivide.hasQuotient h hrun

end Dataflow.Ir
