import Dataflow.Kind.Emit
import Dataflow.Proofs.Ir.Execution
import Dataflow.Proofs.Kind.Meaning
import Mathlib.Data.List.Forall2

/-!
# Emitted code computes what the computation means

`Computation.emit_delivers` says it for every computation but code of a host's own: a function that
carries the emitted code and passes the type check ends up running what follows the code, with the
results of `Computation.eval?` at hand.
-/

namespace Dataflow

open Ir

/-- The place of emission in a function with these parameter types, inputs first. -/
structure EmitSite.Serves (site : EmitSite) (inputs rest : List Ty) : Prop where
  params_eq : site.params = numbered 0 (inputs ++ rest)
  inputs_eq : site.inputs = numbered 0 inputs
  first_eq : site.first = inputs.length + rest.length

/-- A value holds a scalar of its type. -/
def Operand.Holds (env : Env) (operand : Operand) (w : Word) : Prop :=
  w.IsScalar operand.2 ∧ env.lookup operand.1 = some w

/-- Running `f` on the words amounts to running `tail` with the results at hand. -/
def Fragment.Delivers (fragment : Fragment) (f : Function) (calls : Calls) (tail : List Instr)
    (words results : List Word) : Prop :=
  ∃ env : Env, (∀ k w, words[k]? = some w → env.lookup k = some w) ∧
    List.Forall₂ (Operand.Holds env) fragment.results results ∧
    ∀ m, f.run calls words m = (runBody calls f env m tail).map Prod.snd

/-! ## Straight-line code -/

section

variable {site : EmitSite} {inputs rest : List Ty} {f : Function} {calls : Calls}
  {tail : List Instr} {words : List Word}

/-- The values of a function that has just been entered. -/
def entered (words : List Word) : Env := Env.extend [] 0 words

theorem lookup_entered {k : Nat} {w : Word} (h : words[k]? = some w) :
    (entered words).lookup k = some w := by
  have hlookup : (Env.extend [] 0 words).lookup (0 + k) = some w := Env.lookup_extend h
  rwa [Nat.zero_add] at hlookup

theorem bodyWellTyped_cons (tenv : TypeEnv) (i : Instr) (is : List Instr) :
    (bodyWellTyped f tenv (i :: is)).1 =
      (i.wellTyped f tenv && (bodyWellTyped f (i.extend tenv) is).1) := rfl

theorem lookup_extend_of_lt {tenv : TypeEnv} {u v : Nat} {op : Operation} (h : u < v) :
    ((Instr.define v op).extend tenv).lookup u = tenv.lookup u := by
  unfold Instr.extend
  dsimp only
  split
  · rfl
  · rw [List.lookup_cons]
    have hne : (u == v) = false := by simpa using Nat.ne_of_lt h
    rw [hne]

/-- Each of several operations that follow each other passes its check where the values
before them are as before and each value between has the type of its own operation. -/
theorem wellTyped_of_bodyWellTyped {tenv : TypeEnv} {v : Nat} {ops : List Operation}
    (h : (bodyWellTyped f tenv ((ops.mapIdx fun k op => .define (v + k) op) ++ tail)).1 = true)
    {k : Nat} {op : Operation} (hop : ops[k]? = some op) :
    ∃ tenv' : TypeEnv, op.wellTyped f tenv' = true ∧
      (∀ u < v, tenv'.lookup u = tenv.lookup u) ∧
      ∀ j before ty, j < k → ops[j]? = some before →
        (∀ e : TypeEnv, (∀ u < v, e.lookup u = tenv.lookup u) → before.resultType e = some ty) →
        tenv'.lookup (v + j) = some ty := by
  induction ops generalizing tenv v k with
  | nil => simp at hop
  | cons first ops ih =>
      rw [List.mapIdx_cons, List.cons_append, bodyWellTyped_cons, Bool.and_eq_true] at h
      cases k with
      | zero =>
          cases hop
          exact ⟨tenv, h.1, fun _ _ => rfl, fun _ _ _ hj => absurd hj (Nat.not_lt_zero _)⟩
      | succ k =>
          have hshift : (fun (k : Nat) (op : Operation) => Instr.define (v + (k + 1)) op) =
              fun k op => .define (v + 1 + k) op := by
            funext k op
            rw [Nat.add_right_comm, Nat.add_assoc]
          rw [Nat.add_zero, hshift] at h
          obtain ⟨tenv', hcheck, hbelow, htypes⟩ := ih h.2 hop
          refine ⟨tenv', hcheck, ?_, ?_⟩
          · intro u hu
            rw [hbelow u (by omega), lookup_extend_of_lt hu]
          · intro j before ty hj hbefore hty
            cases j with
            | zero =>
                cases hbefore
                rw [Nat.add_zero, hbelow v (Nat.lt_succ_self _)]
                simp only [Instr.extend, hty tenv fun _ _ => rfl]
                exact List.lookup_cons_self
            | succ j =>
                rw [show v + (j + 1) = v + 1 + j by omega]
                refine htypes j before ty (by omega) hbefore ?_
                intro e he
                apply hty e
                intro u hu
                rw [he u (by omega), lookup_extend_of_lt hu]

/-- What the type check of a function of one block says about its body. -/
theorem Ir.Function.wellTyped_single {types : List Ty} {body : List Instr}
    (hblocks : f.blocks = [⟨numbered 0 types, body, .leave⟩]) (h : f.wellTyped = true) :
    (bodyWellTyped f (numbered 0 types).reverse body).1 = true := by
  unfold Function.wellTyped at h
  rw [hblocks, Bool.and_eq_true] at h
  have hbody := h.2
  simp only [blocksWellTyped, List.append_nil, Bool.and_eq_true] at hbody
  exact hbody.1.1

theorem EmitSite.Serves.straight_delivers (hsite : site.Serves inputs rest)
    {ops : List Operation} {operands : List Operand} {results : List Word} (values : List Word)
    (hblocks : f.blocks = [⟨site.params, (site.straight ops operands).body ++ tail, .leave⟩])
    (hwords : words.length = inputs.length + rest.length)
    (hvalues : ∀ m, Evaluate f m (entered words) site.first ops values)
    (hresults : List.Forall₂ (Operand.Holds ((entered words).extend site.first values))
      operands results) :
    (site.straight ops operands).Delivers f calls tail words results := by
  refine ⟨(entered words).extend site.first values, ?_, hresults, ?_⟩
  · intro k w hk
    obtain ⟨hlt, -⟩ := List.getElem?_eq_some_iff.1 hk
    rw [Env.lookup_extend_of_lt (by rw [hsite.first_eq]; omega)]
    exact lookup_entered hk
  · intro m
    have hbind : bindParams [] site.params words = .ok (entered words) := by
      rw [hsite.params_eq]
      exact bindParams_numbered (by rw [List.length_append, hwords])
    have hbody : runBody calls f (entered words) m (site.straight ops operands).body =
        .ok ((entered words).extend site.first values, m) := runBody_of_evaluate (hvalues m)
    rw [Function.run, runBlocks_leave (by rw [hblocks]; rfl) hbind, runBody_append_of_ok hbody]

/-- One operation, whose value is the only result. -/
theorem EmitSite.Serves.single_delivers (hsite : site.Serves inputs rest)
    {op : Operation} {ty : Ty} {w : Word}
    (hblocks : f.blocks =
      [⟨site.params, (site.straight [op] [(site.first, ty)]).body ++ tail, .leave⟩])
    (hwords : words.length = inputs.length + rest.length) (hw : w.IsScalar ty)
    (heval : ∀ m, op.eval f (entered words) m = .ok w) :
    (site.straight [op] [(site.first, ty)]).Delivers f calls tail words [w] := by
  apply hsite.straight_delivers [w] hblocks hwords
  · exact fun m => ⟨heval m, trivial⟩
  · exact .cons ⟨hw, Env.lookup_extend (k := 0) rfl⟩ .nil

/-! ## Arithmetic and comparison -/

theorem lookup_input {types : List Ty} {k : Nat} {ty : Ty} (h : types[k]? = some ty) :
    List.lookup k (numbered 0 types).reverse = some ty := by
  have hlookup : List.lookup (0 + k) ((numbered 0 types).reverse ++ []) = some ty :=
    lookup_numbered h
  rwa [Nat.zero_add, List.append_nil] at hlookup

/-- Two values that pass the check for an operation of integers or of floats. -/
theorem eq_of_operandsWellTyped {tenv : TypeEnv} {int : Bool} {i j : Nat} {s t : Ty}
    (hi : tenv.lookup i = some s) (hj : tenv.lookup j = some t)
    (h : (Operation.hasClass tenv int i && Operation.sameType tenv i j) = true) :
    s = t ∧ s.isInt = int := by
  simp only [Operation.hasClass, Operation.sameType, hi, hj, Bool.and_eq_true, beq_iff_eq] at h
  exact ⟨h.2, h.1⟩

theorem MathOp.eval?_ints (op : MathOp) {ty : DataType} (hty : ty.isInteger = true) {s : Ty}
    (hs : s.isInt = true) {x y : Word} (hx : x.IsScalar s) (hy : y.IsScalar s) :
    ∃ w, op.eval? ty x y = some w ∧ w.IsScalar s ∧ ∀ code : IntOp,
      (∀ {n : Nat} (a b : BitVec n), code.eval a b = .ok (op.onInts a b)) →
        code.apply x y = .ok w := by
  cases s with
  | f32 => contradiction
  | f64 => contradiction
  | _ =>
      obtain ⟨a, rfl⟩ := hx.cases
      obtain ⟨b, rfl⟩ := hy.cases
      refine ⟨_, if_pos hty, ⟨rfl, rfl⟩, ?_⟩
      intro code hcode
      rw [IntOp.apply, hcode a b]
      rfl

theorem MathOp.eval?_floats (op : MathOp) {ty : DataType} (hty : ty.isFloat = true) {s : Ty}
    (hs : s.isInt = false) {x y : Word} (hx : x.IsScalar s) (hy : y.IsScalar s) :
    ∃ w, op.eval? ty x y = some w ∧ w.IsScalar s ∧ op.floatOp.apply x y = .ok w := by
  cases s with
  | i8 => contradiction
  | i32 => contradiction
  | i64 => contradiction
  | _ =>
      obtain ⟨a, rfl⟩ := hx.cases
      obtain ⟨b, rfl⟩ := hy.cases
      refine ⟨_, if_pos hty, ⟨rfl, rfl⟩, ?_⟩
      cases op <;> rfl

theorem CompareOp.eval?_ints {op : CompareOp} {ty : DataType}
    (hty : op.ordersInts ty = true) {s : Ty} (hs : s.isInt = true) {x y : Word}
    (hx : x.IsScalar s) (hy : y.IsScalar s) :
    ∃ w, op.eval? ty x y = some w ∧ w.IsScalar .i8 ∧ op.cond.applyInt x y = .ok w := by
  cases s with
  | f32 => contradiction
  | f64 => contradiction
  | _ =>
      obtain ⟨a, rfl⟩ := hx.cases
      obtain ⟨b, rfl⟩ := hy.cases
      refine ⟨_, if_pos hty, ⟨rfl, rfl⟩, ?_⟩
      cases op <;> rfl

theorem CompareOp.eval?_floats (op : CompareOp) {ty : DataType} (hty : ty.isFloat = true)
    {s : Ty} (hs : s.isInt = false) {x y : Word} (hx : x.IsScalar s) (hy : y.IsScalar s) :
    ∃ w, op.eval? ty x y = some w ∧ w.IsScalar .i8 ∧ op.cond.applyFloat x y = .ok w := by
  cases s with
  | i8 => contradiction
  | i32 => contradiction
  | i64 => contradiction
  | _ =>
      obtain ⟨a, rfl⟩ := hx.cases
      obtain ⟨b, rfl⟩ := hy.cases
      refine ⟨_, if_pos hty, ⟨rfl, rfl⟩, ?_⟩
      cases op <;> rfl

/-! ## Division -/

theorem one_ne_special {n : Nat} (hn : 1 < n) :
    (1 : BitVec n) ≠ 0 ∧ (1 : BitVec n) ≠ -1 ∧ (1 : BitVec n) ≠ BitVec.intMin n := by
  obtain ⟨k, rfl⟩ : ∃ k, n = k + 2 := ⟨n - 2, by omega⟩
  have hpow : 2 ^ (k + 2) = 4 * 2 ^ k := by rw [Nat.pow_add]; omega
  have hhalf : 2 ^ (k + 1) = 2 * 2 ^ k := by rw [Nat.pow_add]; omega
  have hpos : 0 < 2 ^ k := Nat.two_pow_pos k
  have hone : (1#(k + 2)).toNat = 1 := by
    rw [BitVec.toNat_ofNat]
    exact Nat.mod_eq_of_lt (by omega)
  refine ⟨?_, ?_, ?_⟩ <;> intro h <;> have hval := congrArg BitVec.toNat h
  · change (1#(k + 2)).toNat = (0#(k + 2)).toNat at hval
    rw [hone, BitVec.toNat_ofNat] at hval
    simp at hval
  · change (1#(k + 2)).toNat = (-1#(k + 2)).toNat at hval
    rw [BitVec.toNat_neg, hone, Nat.mod_eq_of_lt (by omega)] at hval
    omega
  · change (1#(k + 2)).toNat = _ at hval
    rw [hone, BitVec.toNat_intMin, show k + 2 - 1 = k + 1 by omega,
      Nat.mod_eq_of_lt (by omega)] at hval
    omega

/-- The divisor that stands in for one without a safe quotient. -/
def safeDivisor {n : Nat} (y : BitVec n) : BitVec n := if y = 0 ∨ y = -1 then 1 else y

theorem sdiv_safeDivisor {n : Nat} (hn : 1 < n) (x y : BitVec n) :
    IntOp.sdiv.eval x (safeDivisor y) = .ok (x.sdiv (safeDivisor y)) := by
  obtain ⟨hzero, hminus, -⟩ := one_ne_special hn
  have hsafe : ¬(safeDivisor y = 0 ∨ (x = BitVec.intMin n ∧ safeDivisor y = -1)) := by
    unfold safeDivisor
    split
    · rintro (h | ⟨-, h⟩)
      · exact hzero h
      · exact hminus h
    · rename_i h
      rintro (h0 | ⟨-, h1⟩)
      · exact h (Or.inl h0)
      · exact h (Or.inr h1)
  rw [IntOp.eval, if_neg hsafe]

theorem corrected_quotient {n : Nat} (hn : 1 < n) (x y : BitVec n) :
    (if y = 0 then 0 else if y = -1 then -x else x.sdiv (safeDivisor y)) = x.sdiv y := by
  by_cases hzero : y = 0
  · rw [if_pos hzero, hzero]
    exact BitVec.sdiv_zero.symm
  · rw [if_neg hzero]
    by_cases hminus : y = -1
    · rw [if_pos hminus, hminus, BitVec.sdiv_neg (one_ne_special hn).2.2]
      exact congrArg _ BitVec.sdiv_one.symm
    · rw [if_neg hminus, safeDivisor, if_neg (not_or.2 ⟨hzero, hminus⟩)]

/-- The words of one integer type. -/
structure IntWords (n : Nat) (ty : Ty) (mk : BitVec n → Word) : Prop where
  wide : 1 < n
  scalar : ∀ x, (mk x).IsScalar ty
  constant : ∀ imm, Word.ofInt ty imm = some (mk (BitVec.ofInt n imm))
  apply : ∀ (op : IntOp) (x y : BitVec n), op.apply (mk x) (mk y) = (op.eval x y).map mk
  negate : ∀ x, (mk x).negate = .ok (mk (-x))
  equalsImm : ∀ x imm, (mk x).equalsImm imm = .ok (.ofBool (x == BitVec.ofInt n imm))

theorem IntWords.i8 : IntWords 8 .i8 Word.i8 :=
  ⟨by decide, fun _ => ⟨rfl, rfl⟩, fun _ => rfl, fun _ _ _ => rfl, fun _ => rfl, fun _ _ => rfl⟩

theorem IntWords.i32 : IntWords 32 .i32 Word.i32 :=
  ⟨by decide, fun _ => ⟨rfl, rfl⟩, fun _ => rfl, fun _ _ _ => rfl, fun _ => rfl, fun _ _ => rfl⟩

theorem IntWords.i64 : IntWords 64 .i64 Word.i64 :=
  ⟨by decide, fun _ => ⟨rfl, rfl⟩, fun _ => rfl, fun _ _ _ => rfl, fun _ => rfl, fun _ _ => rfl⟩

/-- The two tests of a divisor, joined into one byte. -/
theorem or_ofBool (p q : Bool) :
    IntOp.or.apply (.ofBool p) (.ofBool q) = .ok (.ofBool (p || q)) := by
  cases p <;> cases q <;> rfl

theorem isTrue?_ofBool (p : Bool) : (Word.ofBool p).isTrue? = some p := by
  cases p <;> rfl

theorem eval_intConst {env : Env} {m : Memory} {ty : Ty} {imm : Int} {w : Word}
    (h : Word.ofInt ty imm = some w) : (Operation.intConst ty imm).eval f env m = .ok w := by
  simp only [Operation.eval, h]

theorem IntWords.evaluate_checkedDivision {n : Nat} {ty : Ty} {mk : BitVec n → Word}
    (hmk : IntWords n ty mk) {a b v : Nat} (ha : a < v) (hb : b < v) {x y : BitVec n}
    {env : Env} (hx : env.lookup a = some (mk x)) (hy : env.lookup b = some (mk y)) :
    ∃ values, values[9]? = some (mk (x.sdiv y)) ∧ values[5]? = some (mk (safeDivisor y)) ∧
      ∀ m, Evaluate f m env v
        [ .equalsImm b 0, .equalsImm b (-1), .int .or v (v + 1), .intConst ty 1, .intConst ty 0,
          .select (v + 2) (v + 3) b, .int .sdiv a (v + 5), .negate a,
          .select (v + 1) (v + 7) (v + 6), .select v (v + 4) (v + 8) ] values := by
  let zero := y == BitVec.ofInt n 0
  let minus := y == BitVec.ofInt n (-1)
  have hzero : zero = decide (y = 0) := by
    simp only [zero, BitVec.ofInt_ofNat]
    rfl
  have hminus : minus = decide (y = -1) := by
    simp only [minus, BitVec.ofInt_neg]
    rfl
  have hsafe : (if (zero || minus) = true then mk (BitVec.ofInt n 1) else mk y) =
      mk (safeDivisor y) := by
    rw [hzero, hminus, safeDivisor, ← apply_ite]
    congr 1
    simp only [Bool.or_eq_true, decide_eq_true_eq]
    rfl
  have hresult : (if zero = true then mk (BitVec.ofInt n 0)
      else if minus = true then mk (-x) else mk (x.sdiv (safeDivisor y))) = mk (x.sdiv y) := by
    rw [hzero, hminus, ← apply_ite, ← apply_ite, ← corrected_quotient hmk.wide x y]
    congr 1
    simp only [decide_eq_true_eq]
    rfl
  let values : List Word := [.ofBool zero, .ofBool minus, .ofBool (zero || minus),
    mk (BitVec.ofInt n 1), mk (BitVec.ofInt n 0), mk (safeDivisor y),
    mk (x.sdiv (safeDivisor y)), mk (-x),
    if minus = true then mk (-x) else mk (x.sdiv (safeDivisor y)), mk (x.sdiv y)]
  have hnew : ∀ j k w, (values.take j)[k]? = some w →
      (env.extend v (values.take j)).lookup (v + k) = some w := by
    intro j k w h
    exact Env.lookup_extend h
  have hold : ∀ j u w, u < v → env.lookup u = some w →
      (env.extend v (values.take j)).lookup u = some w := by
    intro j u w hu h
    rw [Env.lookup_extend_of_lt hu]
    exact h
  refine ⟨values, rfl, rfl, fun m => ⟨?_, ?_, ?_, ?_, ?_, ?_, ?_, ?_, ?_, ?_, trivial⟩⟩
  · exact eval_equalsImm hy (hmk.equalsImm y 0)
  · exact eval_equalsImm (hold 1 b _ hb hy) (hmk.equalsImm y (-1))
  · exact eval_int (hnew 2 0 _ rfl) (hnew 2 1 _ rfl) (or_ofBool zero minus)
  · exact eval_intConst (hmk.constant 1)
  · exact eval_intConst (hmk.constant 0)
  · rw [← hsafe]
    exact eval_select (hnew 5 2 _ rfl) (hnew 5 3 _ rfl) (hold 5 b _ hb hy) (isTrue?_ofBool _)
  · refine eval_int (hold 6 a _ ha hx) (hnew 6 5 _ rfl) ?_
    rw [hmk.apply, sdiv_safeDivisor hmk.wide]
    rfl
  · exact eval_negate (hold 7 a _ ha hx) (hmk.negate x)
  · exact eval_select (hnew 8 1 _ rfl) (hnew 8 7 _ rfl) (hnew 8 6 _ rfl) (isTrue?_ofBool _)
  · rw [← hresult]
    exact eval_select (hnew 9 0 _ rfl) (hnew 9 4 _ rfl) (hnew 9 8 _ rfl) (isTrue?_ofBool _)

/-! ## Each computation -/

theorem Value.isScalar_irType (v : Value) : v.word.IsScalar v.irType := by
  apply v.isScalar_word
  cases v <;> rfl

theorem Value.eval_constant (v : Value) {env : Env} {m : Memory} :
    v.constant.eval f env m = .ok v.word := by
  cases v with
  | bool b => cases b <;> rfl
  | i32 x => simp [Value.constant, Operation.eval, Word.ofInt, Value.word]
  | i64 x => simp [Value.constant, Operation.eval, Word.ofInt, Value.word]
  | _ x => rfl

theorem eq_of_numbered_single {a : Operand} (h : numbered 0 inputs = [a]) :
    inputs = [a.2] ∧ a.1 = 0 := by
  have htypes := map_snd_numbered 0 inputs
  rw [h] at htypes
  subst htypes
  simp only [List.map_cons, List.map_nil, numbered_cons] at h
  injection h with ha h
  exact ⟨rfl, (congrArg Prod.fst ha).symm⟩

theorem eq_of_numbered_pair {a b : Operand} (h : numbered 0 inputs = [a, b]) :
    inputs = [a.2, b.2] ∧ a.1 = 0 ∧ b.1 = 1 := by
  have htypes := map_snd_numbered 0 inputs
  rw [h] at htypes
  subst htypes
  simp only [List.map_cons, List.map_nil, numbered_cons] at h
  injection h with ha h
  injection h with hb h
  exact ⟨rfl, (congrArg Prod.fst ha).symm, (congrArg Prod.fst hb).symm⟩

theorem eq_of_numbered_triple {a b d : Operand} (h : numbered 0 inputs = [a, b, d]) :
    inputs = [a.2, b.2, d.2] ∧ a.1 = 0 ∧ b.1 = 1 ∧ d.1 = 2 := by
  have htypes := map_snd_numbered 0 inputs
  rw [h] at htypes
  subst htypes
  simp only [List.map_cons, List.map_nil, numbered_cons] at h
  injection h with ha h
  injection h with hb h
  injection h with hd h
  exact ⟨rfl, (congrArg Prod.fst ha).symm, (congrArg Prod.fst hb).symm,
    (congrArg Prod.fst hd).symm⟩

variable {args extra : List Word}

/-- One operation on the two inputs, which the check wants to be of one type and class. -/
theorem EmitSite.Serves.binary_delivers {s t result : Ty} (hsite : site.Serves [s, t] rest)
    {op : Operation} {int : Bool} {x y : Word} {meaning : Option Word}
    (hop : ∀ tenv, op.wellTyped f tenv =
      (Operation.hasClass tenv int 0 && Operation.sameType tenv 0 1))
    (hcode : s = t → s.isInt = int → ∃ w, meaning = some w ∧ w.IsScalar result ∧
      ∀ (env : Env) (m : Memory), env.lookup 0 = some x → env.lookup 1 = some y →
        op.eval f env m = .ok w)
    (hblocks : f.blocks = [⟨site.params,
      (site.straight [op] [(site.first, result)]).body ++ tail, .leave⟩])
    (htyped : f.wellTyped = true) (hextra : extra.length = rest.length) :
    ∃ w, meaning = some w ∧
      (site.straight [op] [(site.first, result)]).Delivers f calls tail (x :: y :: extra) [w] := by
  have hcheck := Function.wellTyped_single (hsite.params_eq ▸ hblocks) htyped
  change (bodyWellTyped f _ (.define site.first op :: tail)).1 = true at hcheck
  rw [bodyWellTyped_cons, Bool.and_eq_true] at hcheck
  obtain ⟨heq, hclass⟩ := eq_of_operandsWellTyped (i := 0) (j := 1) (s := s) (t := t)
    (lookup_input rfl) (lookup_input rfl) ((hop _).symm.trans hcheck.1)
  obtain ⟨w, hw, hscalar, heval⟩ := hcode heq hclass
  refine ⟨w, hw, ?_⟩
  apply hsite.single_delivers hblocks (by simp [hextra]; omega) hscalar
  intro m
  exact heval _ m (lookup_entered rfl) (lookup_entered rfl)

theorem EmitSite.Serves.checkedDivision_delivers {s t : Ty} (hsite : site.Serves [s, t] rest)
    {ty : DataType} (hty : ty.isInteger = true) {x y : Word} (hx : x.IsScalar s)
    (hy : y.IsScalar t)
    (hblocks : f.blocks =
      [⟨site.params, (site.checkedDivision 0 1 s).body ++ tail, .leave⟩])
    (htyped : f.wellTyped = true) (hextra : extra.length = rest.length) :
    ∃ w, MathOp.div.eval? ty x y = some w ∧
      (site.checkedDivision 0 1 s).Delivers f calls tail (x :: y :: extra) [w] := by
  have hcheck := Function.wellTyped_single (hsite.params_eq ▸ hblocks) htyped
  have h1 : List.lookup 1 (numbered 0 ([s, t] ++ rest)).reverse = some t := lookup_input rfl
  have hfirst : 2 ≤ site.first := by
    rw [hsite.first_eq]
    exact Nat.le_add_right _ _
  obtain ⟨_, hint, _⟩ := wellTyped_of_bodyWellTyped hcheck (k := 3) rfl
  obtain ⟨tenv, hselect, hbelow, htypes⟩ := wellTyped_of_bodyWellTyped hcheck (k := 5) rfl
  have hone := htypes 3 _ s (by decide) rfl fun _ _ => rfl
  simp only [Operation.wellTyped, Operation.sameType, hone, hbelow 1 hfirst, h1,
    Bool.and_eq_true, beq_iff_eq] at hint hselect
  obtain ⟨-, rfl⟩ := hselect
  have hlength : (x :: y :: extra).length = [s, s].length + rest.length := by
    simp [hextra]
    omega
  have hdeliver : ∀ {n : Nat} {mk : BitVec n → Word} {a b : BitVec n}, IntWords n s mk →
      x = mk a → y = mk b →
      (site.checkedDivision 0 1 s).Delivers f calls tail (x :: y :: extra) [mk (a.sdiv b)] := by
    rintro n mk a b hmk rfl rfl
    have hzero : (entered (mk a :: mk b :: extra)).lookup 0 = some (mk a) := lookup_entered rfl
    have hone : (entered (mk a :: mk b :: extra)).lookup 1 = some (mk b) := lookup_entered rfl
    obtain ⟨values, hresult, -, hvalues⟩ :=
      hmk.evaluate_checkedDivision (f := f) (Nat.lt_of_succ_lt hfirst) hfirst hzero hone
    refine hsite.straight_delivers values hblocks hlength hvalues ?_
    exact .cons ⟨hmk.scalar _, Env.lookup_extend hresult⟩ .nil
  cases s with
  | f32 => contradiction
  | f64 => contradiction
  | i8 =>
      obtain ⟨a, rfl⟩ := hx.cases
      obtain ⟨b, rfl⟩ := hy.cases
      exact ⟨_, if_pos hty, hdeliver IntWords.i8 rfl rfl⟩
  | i32 =>
      obtain ⟨a, rfl⟩ := hx.cases
      obtain ⟨b, rfl⟩ := hy.cases
      exact ⟨_, if_pos hty, hdeliver IntWords.i32 rfl rfl⟩
  | i64 =>
      obtain ⟨a, rfl⟩ := hx.cases
      obtain ⟨b, rfl⟩ := hy.cases
      exact ⟨_, if_pos hty, hdeliver IntWords.i64 rfl rfl⟩

/-- One operation on the first two inputs and another on its value and the third. -/
theorem EmitSite.Serves.chain_delivers {s t u : Ty} (hsite : site.Serves [s, t, u] rest)
    (op next : Nat → Nat → Operation) {int : Bool} {x y z : Word} {meaning : Option Word}
    (hop : ∀ tenv i j, (op i j).wellTyped f tenv =
      (Operation.hasClass tenv int i && Operation.sameType tenv i j))
    (hnext : ∀ tenv i j, (next i j).wellTyped f tenv =
      (Operation.hasClass tenv int i && Operation.sameType tenv i j))
    (hresult : ∀ (tenv : TypeEnv) i j, (op i j).resultType tenv = tenv.lookup i)
    (hcode : s = t → s = u → s.isInt = int → ∃ v w, meaning = some w ∧ w.IsScalar s ∧
      (∀ (env : Env) (m : Memory) i j, env.lookup i = some x → env.lookup j = some y →
        (op i j).eval f env m = .ok v) ∧
      ∀ (env : Env) (m : Memory) i j, env.lookup i = some v → env.lookup j = some z →
        (next i j).eval f env m = .ok w)
    (hblocks : f.blocks = [⟨site.params, (site.straight [op 0 1, next site.first 2]
      [(site.first + 1, s)]).body ++ tail, .leave⟩])
    (htyped : f.wellTyped = true) (hextra : extra.length = rest.length) :
    ∃ w, meaning = some w ∧
      (site.straight [op 0 1, next site.first 2] [(site.first + 1, s)]).Delivers f calls tail
        (x :: y :: z :: extra) [w] := by
  have hfirst : 3 ≤ site.first := by
    rw [hsite.first_eq]
    exact Nat.le_add_right _ _
  have hcheck := Function.wellTyped_single (hsite.params_eq ▸ hblocks) htyped
  have h0 : List.lookup 0 (numbered 0 ([s, t, u] ++ rest)).reverse = some s := lookup_input rfl
  have h1 : List.lookup 1 (numbered 0 ([s, t, u] ++ rest)).reverse = some t := lookup_input rfl
  have h2 : List.lookup 2 (numbered 0 ([s, t, u] ++ rest)).reverse = some u := lookup_input rfl
  obtain ⟨tenv₀, hop₀, hbelow₀, -⟩ := wellTyped_of_bodyWellTyped hcheck (k := 0) rfl
  obtain ⟨tenv₁, hop₁, hbelow₁, htypes₁⟩ := wellTyped_of_bodyWellTyped hcheck (k := 1) rfl
  have hvalue : tenv₁.lookup site.first = some s := by
    refine htypes₁ 0 _ s Nat.zero_lt_one rfl ?_
    intro e he
    rw [hresult, he 0 (Nat.lt_of_lt_of_le (by decide) hfirst), h0]
  obtain ⟨hst, hclass⟩ := eq_of_operandsWellTyped
    ((hbelow₀ 0 (Nat.lt_of_lt_of_le (by decide) hfirst)).trans h0)
    ((hbelow₀ 1 (Nat.lt_of_lt_of_le (by decide) hfirst)).trans h1) ((hop _ _ _).symm.trans hop₀)
  obtain ⟨hsu, -⟩ := eq_of_operandsWellTyped hvalue ((hbelow₁ 2 hfirst).trans h2)
    ((hnext _ _ _).symm.trans hop₁)
  obtain ⟨v, w, hw, hscalar, hevalv, hevalw⟩ := hcode hst hsu hclass
  refine ⟨w, hw, ?_⟩
  apply hsite.straight_delivers [v, w] hblocks (by simp [hextra]; omega)
  · intro m
    refine ⟨hevalv _ m 0 1 (lookup_entered rfl) (lookup_entered rfl), ?_, trivial⟩
    refine hevalw _ m _ 2 List.lookup_cons_self ?_
    rw [Env.lookup_cons_of_lt hfirst]
    exact lookup_entered rfl
  · exact .cons ⟨hscalar, Env.lookup_extend (k := 1) rfl⟩ .nil

/-! ## Selection -/

theorem Ir.Word.IsScalar.isTrue? {s : Ty} {w : Word} (h : w.IsScalar s) (hs : s.isInt = true) :
    ∃ taken, w.isTrue? = some taken := by
  cases s with
  | f32 => contradiction
  | f64 => contradiction
  | _ =>
      obtain ⟨a, rfl⟩ := h.cases
      exact ⟨_, rfl⟩

theorem EmitSite.Serves.branching_delivers {s t u native : Ty}
    (hsite : site.Serves [s, t, u] rest) {condition x y : Word}
    (hcondition : condition.IsScalar s) (hx : x.IsScalar t) (hy : y.IsScalar u)
    (hblocks : f.blocks = (site.branching 0 1 2 native).blocks ++
      [⟨(site.branching 0 1 2 native).params, (site.branching 0 1 2 native).body ++ tail, .leave⟩])
    (htyped : f.wellTyped = true) (hextra : extra.length = rest.length) :
    ∃ taken, condition.isTrue? = some taken ∧
      (site.branching 0 1 2 native).Delivers f calls tail (condition :: x :: y :: extra)
        [if taken then x else y] := by
  have hblocks' : f.blocks = [⟨numbered 0 ([s, t, u] ++ rest), [], .branch 0 1 2⟩,
      ⟨[], [], .jump 3 [1]⟩, ⟨[], [], .jump 3 [2]⟩,
      ⟨[(site.first, native)], tail, .leave⟩] := by
    rw [hblocks, ← hsite.params_eq]
    rfl
  have h0 : List.lookup 0 (numbered 0 ([s, t, u] ++ rest)).reverse = some s := lookup_input rfl
  have h1 : List.lookup 1 (numbered 0 ([s, t, u] ++ rest)).reverse = some t := lookup_input rfl
  have h2 : List.lookup 2 (numbered 0 ([s, t, u] ++ rest)).reverse = some u := lookup_input rfl
  have hpart : paramTypes f 3 = some [native] := by
    rw [paramTypes, hblocks']
    rfl
  unfold Function.wellTyped at htyped
  rw [Bool.and_eq_true] at htyped
  have hcheck := htyped.2
  rw [hblocks'] at hcheck
  simp only [blocksWellTyped, bodyWellTyped, Terminator.wellTyped, Operation.hasClass, argsMatch,
    hpart, List.append_nil, List.reverse_nil, List.nil_append, List.map_cons, List.map_nil,
    h0, h1, h2, Bool.and_eq_true, beq_iff_eq, List.cons.injEq, Option.some.injEq] at hcheck
  obtain ⟨⟨-, ⟨hint, -⟩, -⟩, ⟨-, rfl, -⟩, ⟨-, rfl, -⟩, -⟩ := hcheck
  obtain ⟨taken, htaken⟩ := hcondition.isTrue? hint
  have hchosen : (if taken then x else y).IsScalar u := by
    cases taken
    · exact hy
    · exact hx
  have hlength : (condition :: x :: y :: extra).length = [s, u, u].length + rest.length := by
    simp [hextra]
    omega
  have hfirst : (condition :: x :: y :: extra).length ≤ site.first :=
    Nat.le_of_eq (by rw [hlength, hsite.first_eq])
  refine ⟨taken, htaken, (site.first, if taken then x else y) ::
    entered (condition :: x :: y :: extra), ?_, ?_, ?_⟩
  · intro k w hk
    obtain ⟨hlt, -⟩ := List.getElem?_eq_some_iff.1 hk
    rw [Env.lookup_cons_of_lt (Nat.lt_of_lt_of_le hlt hfirst)]
    exact lookup_entered hk
  · exact .cons ⟨hchosen, List.lookup_cons_self⟩ .nil
  · intro m
    have hbind : bindParams [] (numbered 0 ([s, u, u] ++ rest)) (condition :: x :: y :: extra) =
        .ok (entered (condition :: x :: y :: extra)) :=
      bindParams_numbered (by rw [List.length_append, hlength])
    have hcond : (entered (condition :: x :: y :: extra)).get 0 = .ok condition :=
      Env.get_of_lookup (lookup_entered rfl)
    have hyes : (entered (condition :: x :: y :: extra)).getAll [1] = .ok [x] :=
      Env.getAll_of_lookup (.cons (lookup_entered rfl) .nil)
    have hno : (entered (condition :: x :: y :: extra)).getAll [2] = .ok [y] :=
      Env.getAll_of_lookup (.cons (lookup_entered rfl) .nil)
    rw [Function.run, runBlocks_of_bind (by rw [hblocks']; rfl) hbind]
    simp only [runBody, hcond, htaken]
    cases taken
    · simp only [Bool.false_eq_true, if_false, Nat.zero_lt_succ, if_true]
      rw [runBlocks_of_bind (by rw [hblocks']; rfl) rfl]
      simp only [runBody, hno, Nat.reduceLT, if_true]
      exact runBlocks_leave (by rw [hblocks']; rfl) rfl
    · simp only [Nat.zero_lt_succ, if_true]
      rw [runBlocks_of_bind (by rw [hblocks']; rfl) rfl]
      simp only [runBody, hyes, Nat.reduceLT, if_true]
      exact runBlocks_leave (by rw [hblocks']; rfl) rfl

/-! ## All computations -/

theorem Scalars.getElem? {types : List Ty} (h : Scalars types args) (k : Nat) :
    (types[k]? = none ∧ args[k]? = none) ∨
      ∃ ty w, types[k]? = some ty ∧ args[k]? = some w ∧ w.IsScalar ty := by
  induction h generalizing k with
  | nil => exact Or.inl ⟨rfl, rfl⟩
  | cons hw _ ih =>
      cases k with
      | zero => exact Or.inr ⟨_, _, rfl, rfl, hw⟩
      | succ k => exact ih k

theorem EmitSite.Serves.pick_delivers (hsite : site.Serves inputs rest) (positions : List Nat)
    (hblocks : f.blocks = [⟨site.params,
      (site.straight [] (positions.filterMap fun k => site.inputs[k]?)).body ++ tail, .leave⟩])
    (hargs : Scalars inputs args) (hextra : extra.length = rest.length) :
    (site.straight [] (positions.filterMap fun k => site.inputs[k]?)).Delivers f calls tail
      (args ++ extra) (positions.filterMap fun k => args[k]?) := by
  apply hsite.straight_delivers [] hblocks
    (by simp [← List.Forall₂.length_eq hargs, hextra])
  · exact fun _ => trivial
  · rw [hsite.inputs_eq]
    change List.Forall₂ (Operand.Holds (entered (args ++ extra))) _ _
    clear hblocks
    induction positions with
    | nil => exact .nil
    | cons k positions ih =>
        rcases hargs.getElem? k with ⟨hnone, harg⟩ | ⟨ty, w, hty, hw, hscalar⟩
        · rw [List.filterMap_cons_none (by rw [getElem?_numbered, hnone]; rfl),
            List.filterMap_cons_none harg]
          exact ih
        · rw [List.filterMap_cons_some (by rw [getElem?_numbered, hty]; rfl),
            List.filterMap_cons_some hw]
          refine .cons ⟨hscalar, ?_⟩ ih
          obtain ⟨hlt, -⟩ := List.getElem?_eq_some_iff.1 hw
          rw [Nat.zero_add]
          exact lookup_entered ((List.getElem?_append_left hlt).trans hw)

theorem Scalars.pair {s t : Ty} (h : Scalars [s, t] args) :
    ∃ x y, args = [x, y] ∧ x.IsScalar s ∧ y.IsScalar t := by
  obtain ⟨x, _, hx, htail, rfl⟩ := List.forall₂_cons_left_iff.1 h
  obtain ⟨y, _, hy, hnil, rfl⟩ := List.forall₂_cons_left_iff.1 htail
  cases List.forall₂_nil_left_iff.1 hnil
  exact ⟨x, y, rfl, hx, hy⟩

theorem Scalars.triple {s t u : Ty} (h : Scalars [s, t, u] args) :
    ∃ x y z, args = [x, y, z] ∧ x.IsScalar s ∧ y.IsScalar t ∧ z.IsScalar u := by
  obtain ⟨x, _, hx, htail, rfl⟩ := List.forall₂_cons_left_iff.1 h
  obtain ⟨y, z, rfl, hy, hz⟩ := Scalars.pair htail
  exact ⟨x, y, z, rfl, hx, hy, hz⟩

theorem EmitSite.Serves.intMath_delivers {s t : Ty} (hsite : site.Serves [s, t] rest)
    (op : MathOp) {ty : DataType} (hty : ty.isInteger = true) {x y : Word} (hx : x.IsScalar s)
    (hy : y.IsScalar t)
    (hblocks : f.blocks = (site.intMath op 0 1 s).blocks ++ [⟨(site.intMath op 0 1 s).params,
      (site.intMath op 0 1 s).body ++ tail, .leave⟩])
    (htyped : f.wellTyped = true) (hextra : extra.length = rest.length) :
    ∃ w, op.eval? ty x y = some w ∧
      (site.intMath op 0 1 s).Delivers f calls tail (x :: y :: extra) [w] := by
  -- Every operation but division is one instruction.
  have hsingle : ∀ code : IntOp,
      (∀ {n : Nat} (a b : BitVec n), code.eval a b = .ok (op.onInts a b)) →
      f.blocks = [⟨site.params,
        (site.straight [.int code 0 1] [(site.first, s)]).body ++ tail, .leave⟩] →
      ∃ w, op.eval? ty x y = some w ∧
        (site.straight [.int code 0 1] [(site.first, s)]).Delivers f calls tail
          (x :: y :: extra) [w] := by
    intro code hcode hblocks
    refine hsite.binary_delivers (fun _ => rfl) ?_ hblocks htyped hextra
    rintro rfl hclass
    obtain ⟨w, hw, hscalar, happly⟩ := op.eval?_ints hty hclass hx hy
    exact ⟨w, hw, hscalar, fun _ _ h0 h1 => eval_int h0 h1 (happly code hcode)⟩
  cases op with
  | add => exact hsingle .add (fun _ _ => rfl) hblocks
  | sub => exact hsingle .sub (fun _ _ => rfl) hblocks
  | mul => exact hsingle .mul (fun _ _ => rfl) hblocks
  | div => exact hsite.checkedDivision_delivers hty hx hy hblocks htyped hextra
  | min => exact hsingle .smin (fun _ _ => rfl) hblocks
  | max => exact hsingle .smax (fun _ _ => rfl) hblocks

/-! ## One computation at a time -/

section

variable {fragment : Fragment} (hsite : site.Serves inputs rest)
  (hblocks : f.blocks = fragment.blocks ++ [⟨fragment.params, fragment.body ++ tail, .leave⟩])
  (htyped : f.wellTyped = true) (hargs : Scalars inputs args)
  (hextra : extra.length = rest.length)

include hsite hblocks htyped hargs hextra

theorem Computation.math_delivers {op : MathOp} {ty : DataType}
    (hemit : (Computation.math op ty).emit site = .ok fragment) :
    ∃ results, (Computation.math op ty).eval? args = some results ∧
      fragment.Delivers f calls tail (args ++ extra) results := by
  simp only [Computation.emit] at hemit
  split at hemit
  · rename_i a b hab
    obtain ⟨rfl, ha, hb⟩ := eq_of_numbered_pair (hsite.inputs_eq.symm.trans hab)
    obtain ⟨x, y, rfl, hx, hy⟩ := hargs.pair
    rw [ha, hb] at hemit
    suffices h : ∃ w, op.eval? ty x y = some w ∧
        fragment.Delivers f calls tail (x :: y :: extra) [w] by
      obtain ⟨w, hw, hdelivers⟩ := h
      exact ⟨[w], by rw [Computation.eval?, hw]; rfl, hdelivers⟩
    split at hemit
    · rename_i hfloat
      cases hemit
      refine hsite.binary_delivers (fun _ => rfl) ?_ hblocks htyped hextra
      intro heq hclass
      obtain ⟨w, hw, hscalar, hcode⟩ := op.eval?_floats hfloat hclass hx (heq ▸ hy)
      exact ⟨w, hw, hscalar, fun _ _ h0 h1 => eval_float h0 h1 hcode⟩
    · split at hemit
      · rename_i hint
        cases hemit
        exact hsite.intMath_delivers op hint hx hy hblocks htyped hextra
      · contradiction
  · contradiction

theorem Computation.compare_delivers {op : CompareOp} {ty : DataType}
    (hemit : (Computation.compare op ty).emit site = .ok fragment) :
    ∃ results, (Computation.compare op ty).eval? args = some results ∧
      fragment.Delivers f calls tail (args ++ extra) results := by
  simp only [Computation.emit] at hemit
  split at hemit
  · rename_i a b hab
    obtain ⟨rfl, ha, hb⟩ := eq_of_numbered_pair (hsite.inputs_eq.symm.trans hab)
    obtain ⟨x, y, rfl, hx, hy⟩ := hargs.pair
    rw [ha, hb] at hemit
    suffices h : ∃ w, op.eval? ty x y = some w ∧
        fragment.Delivers f calls tail (x :: y :: extra) [w] by
      obtain ⟨w, hw, hdelivers⟩ := h
      exact ⟨[w], by rw [Computation.eval?, hw]; rfl, hdelivers⟩
    split at hemit
    · rename_i hfloat
      cases hemit
      refine hsite.binary_delivers (fun _ => rfl) ?_ hblocks htyped hextra
      intro heq hclass
      obtain ⟨w, hw, hscalar, hcode⟩ := op.eval?_floats hfloat hclass hx (heq ▸ hy)
      exact ⟨w, hw, hscalar, fun _ _ h0 h1 => eval_compareFloat h0 h1 hcode⟩
    · split at hemit
      · rename_i hint
        cases hemit
        refine hsite.binary_delivers (fun _ => rfl) ?_ hblocks htyped hextra
        intro heq hclass
        obtain ⟨w, hw, hscalar, hcode⟩ := CompareOp.eval?_ints hint hclass hx (heq ▸ hy)
        exact ⟨w, hw, hscalar, fun _ _ h0 h1 => eval_compareInt h0 h1 hcode⟩
      · contradiction
  · contradiction

theorem Computation.select_delivers {ty : DataType}
    (hemit : (Computation.select ty).emit site = .ok fragment) :
    ∃ results, (Computation.select ty).eval? args = some results ∧
      fragment.Delivers f calls tail (args ++ extra) results := by
  simp only [Computation.emit] at hemit
  split at hemit
  · rename_i a b d habd
    obtain ⟨rfl, ha, hb, hd⟩ := eq_of_numbered_triple (hsite.inputs_eq.symm.trans habd)
    obtain ⟨condition, x, y, rfl, hcondition, hx, hy⟩ := hargs.triple
    split at hemit
    · contradiction
    · rw [ha, hb, hd] at hemit
      cases hemit
      obtain ⟨taken, htaken, hdelivers⟩ :=
        hsite.branching_delivers hcondition hx hy hblocks htyped hextra
      exact ⟨_, by rw [Computation.eval?, htaken]; rfl, hdelivers⟩
  · contradiction

theorem Computation.clamp_delivers {ty : DataType}
    (hemit : (Computation.clamp ty).emit site = .ok fragment) :
    ∃ results, (Computation.clamp ty).eval? args = some results ∧
      fragment.Delivers f calls tail (args ++ extra) results := by
  simp only [Computation.emit] at hemit
  split at hemit
  · rename_i a b d habd
    obtain ⟨rfl, ha, hb, hd⟩ := eq_of_numbered_triple (hsite.inputs_eq.symm.trans habd)
    obtain ⟨x, low, high, rfl, hx, hlow, hhigh⟩ := hargs.triple
    rw [ha, hb, hd] at hemit
    suffices h : ∃ w, ((MathOp.max.eval? ty x low).bind fun v =>
        MathOp.min.eval? ty v high) = some w ∧
        fragment.Delivers f calls tail (x :: low :: high :: extra) [w] by
      obtain ⟨w, hw, hdelivers⟩ := h
      exact ⟨[w], by rw [Computation.eval?, hw]; rfl, hdelivers⟩
    split at hemit
    · rename_i hfloat
      cases hemit
      refine hsite.chain_delivers (.float .max) (.float .min)
        (fun _ _ _ => rfl) (fun _ _ _ => rfl) (fun _ _ _ => rfl) ?_ hblocks htyped hextra
      intro hst hsu hclass
      obtain ⟨v, hv, hvs, hcodev⟩ :=
        MathOp.max.eval?_floats hfloat hclass hx (hst ▸ hlow)
      obtain ⟨w, hw, hws, hcodew⟩ :=
        MathOp.min.eval?_floats hfloat hclass hvs (hsu ▸ hhigh)
      exact ⟨v, w, by rw [hv, Option.bind_some, hw], hws,
        fun _ _ _ _ h0 h1 => eval_float h0 h1 hcodev,
        fun _ _ _ _ h0 h1 => eval_float h0 h1 hcodew⟩
    · split at hemit
      · rename_i hint
        cases hemit
        refine hsite.chain_delivers (.int .smax) (.int .smin)
          (fun _ _ _ => rfl) (fun _ _ _ => rfl) (fun _ _ _ => rfl) ?_ hblocks htyped hextra
        intro hst hsu hclass
        obtain ⟨v, hv, hvs, hcodev⟩ := MathOp.max.eval?_ints hint hclass hx (hst ▸ hlow)
        obtain ⟨w, hw, hws, hcodew⟩ := MathOp.min.eval?_ints hint hclass hvs (hsu ▸ hhigh)
        exact ⟨v, w, by rw [hv, Option.bind_some, hw], hws,
          fun _ _ _ _ h0 h1 => eval_int h0 h1 (hcodev .smax fun _ _ => rfl),
          fun _ _ _ _ h0 h1 => eval_int h0 h1 (hcodew .smin fun _ _ => rfl)⟩
      · contradiction
  · contradiction

end

/-- Code that passes the type check delivers the results of its computation, unless it is a host's
own. -/
theorem Computation.emit_delivers {c : Computation} {fragment : Fragment}
    (hown : ∀ own, c ≠ .code own) (hsite : site.Serves inputs rest)
    (hemit : c.emit site = .ok fragment)
    (hblocks : f.blocks = fragment.blocks ++ [⟨fragment.params, fragment.body ++ tail, .leave⟩])
    (htyped : f.wellTyped = true) (hargs : Scalars inputs args)
    (hextra : extra.length = rest.length) :
    ∃ results, c.eval? args = some results ∧
      fragment.Delivers f calls tail (args ++ extra) results := by
  cases c with
  | supplied => contradiction
  | fail error => contradiction
  | code own => exact absurd rfl (hown own)
  | pick positions =>
      cases hemit
      exact ⟨_, by cases args <;> rfl, hsite.pick_delivers positions hblocks hargs hextra⟩
  | forward =>
      simp only [emit] at hemit
      split at hemit
      · rename_i a ha
        cases hemit
        obtain ⟨rfl, hvar⟩ := eq_of_numbered_single (hsite.inputs_eq.symm.trans ha)
        obtain ⟨x, _, hx, hnil, rfl⟩ := List.forall₂_cons_left_iff.1 hargs
        cases List.forall₂_nil_left_iff.1 hnil
        refine ⟨[x], rfl, hsite.straight_delivers [] hblocks (by simp [hextra]; omega)
          (fun _ => trivial) (.cons ⟨hx, ?_⟩ .nil)⟩
        rw [hvar]
        exact lookup_entered rfl
      · contradiction
  | constant value =>
      simp only [emit] at hemit
      split at hemit
      · rename_i hnone
        cases hemit
        have hinputs := map_snd_numbered 0 inputs
        rw [← hsite.inputs_eq, hnone] at hinputs
        subst hinputs
        cases List.forall₂_nil_left_iff.1 hargs
        refine ⟨[value.word], rfl, hsite.single_delivers hblocks (by simpa using hextra)
          value.isScalar_irType ?_⟩
        exact fun m => value.eval_constant
      · contradiction
  | math op ty => exact math_delivers hsite hblocks htyped hargs hextra hemit
  | compare op ty => exact compare_delivers hsite hblocks htyped hargs hextra hemit
  | select ty => exact select_delivers hsite hblocks htyped hargs hextra hemit
  | clamp ty => exact clamp_delivers hsite hblocks htyped hargs hextra hemit

end

end Dataflow
