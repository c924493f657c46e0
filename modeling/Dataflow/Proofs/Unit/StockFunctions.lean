import Dataflow.Proofs.Ir.Division
import Dataflow.Proofs.Kind.Integers
import Dataflow.Proofs.Unit.Emitted
import Dataflow.Proofs.Unit.StockKinds

/-!
# What the functions of stock kinds compute

`Node.FollowsKind` lists what a node of a stock kind makes of integers and truth values, each
promise by the run of the node's own function: whatever its arguments are, it ends with the
documented result in the slot of its output. A division is only carried out where it has a
quotient, since 1 divides in the place of 0 and -1.
-/

namespace Dataflow

open Ir

/-- Called on memory that has a slot for each output, the function ends with these results in the
slots and nothing else changed, and comes to no division without a quotient. -/
structure Ir.Function.Fills (f : Function) (types : List Ty) (args results : List Word) :
    Prop where
  wellTyped : f.wellTyped = true
  runs : ∀ (m : Memory) (start : Nat), m.HasSlots start types →
    f.runLeaf (args ++ Memory.slotAddresses start types.length) m =
      .ok (m.fillSlots start (results.map Word.image))
  divides : ∀ (m : Memory) (start : Nat), m.HasSlots start types → ∀ a b,
    f.Divides (args ++ Memory.slotAddresses start types.length) m a b → a.HasQuotient b

/-- The node has code, and its function makes these results of these arguments. -/
def Node.Computes (n : Node) (args results : List Word) : Prop :=
  ∃ inputs outputs, n.portTypes .input = .ok inputs ∧ n.portTypes .output = .ok outputs ∧
    Scalars inputs args ∧ ∀ id name, ∃ f,
      n.function id name inputs outputs = .ok f ∧ f.Fills outputs args results

/-- A type of integers, with their width and their words. -/
inductive Integers : DataType → (w : Nat) → (BitVec w → Word) → Prop
  | i32 : Integers .i32 32 Word.i32
  | i64 : Integers .i64 64 Word.i64

/-! ## Functions of stock kinds -/

namespace Node

variable {n : Node} {inputs outputs : List Ty} {args results : List Word}

/-- A stock kind whose computation has results has code. -/
theorem exists_function_of_stock (hstock : ∀ k, n.kind ≠ .host k)
    (hin : (n.kind.inputs.map PortSpec.dataType).mapM DataType.native = some inputs)
    (hout : (n.kind.outputs.map PortSpec.dataType).mapM DataType.native = some outputs)
    (heval : n.kind.computation.eval? args = some results) (id : Nat) (name : String) :
    ∃ f, n.function id name inputs outputs = .ok f := by
  obtain ⟨nodeName, kind, inPorts, outPorts⟩ := n
  -- The types without code are those for which the computation has no results.
  cases kind with
  | host k => exact absurd rfl (hstock k)
  | graphInput specs => cases args <;> cases heval
  | constant value => cases value <;> cases hin <;> cases hout <;> exact ⟨_, rfl⟩
  | reroute ty => cases ty <;> cases hin <;> cases hout <;> exact ⟨_, rfl⟩
  | select ty => cases ty <;> cases hin <;> cases hout <;> exact ⟨_, rfl⟩
  | math op ty =>
      match args, heval with
      | [x, y], heval =>
          obtain ⟨w, hw, -⟩ := Option.map_eq_some_iff.1 heval
          cases ty <;> cases hin <;> cases hout
          case bool.refl.refl =>
            rw [MathOp.eval?_bool] at hw
            contradiction
          all_goals cases op <;> exact ⟨_, rfl⟩
  | clamp ty =>
      match args, heval with
      | [x, low, high], heval =>
          obtain ⟨w, hw, -⟩ := Option.map_eq_some_iff.1 heval
          cases ty <;> cases hin <;> cases hout
          case bool.refl.refl =>
            rw [MathOp.eval?_bool] at hw
            contradiction
          all_goals exact ⟨_, rfl⟩
  | compare op ty =>
      match args, heval with
      | [x, y], heval =>
          obtain ⟨w, hw, -⟩ := Option.map_eq_some_iff.1 heval
          cases ty <;> cases hin <;> cases hout <;> cases op
          all_goals first
            | exact ⟨_, rfl⟩
            | simp [CompareOp.eval?_bool] at hw

theorem portTypes_of_specs {role : PortRole} {specs : List PortSpec} {types : List Ty}
    (htypes : (n.ports role).map Port.dataType = specs.map PortSpec.dataType)
    (hnative : specs.map (fun spec => spec.dataType.native) = types.map some) :
    n.portTypes role = .ok types := by
  have hmap := congrArg (List.map DataType.native) htypes
  rw [List.map_map, List.map_map] at hmap
  exact portTypes_eq_ok_iff.2 (hmap.trans hnative)

/-- What the computation of a stock kind gives for scalars of its input types, the node's function
computes. -/
theorem WellFormed.computes (hn : n.WellFormed) {kind : Kind} (hkind : n.kind = kind)
    (hstock : ∀ k, kind ≠ .host k) (inputs outputs : List Ty)
    (hin : kind.inputs.map (fun spec => spec.dataType.native) = inputs.map some)
    (hout : kind.outputs.map (fun spec => spec.dataType.native) = outputs.map some)
    (hargs : Scalars inputs args) (heval : kind.computation.eval? args = some results) :
    n.Computes args results := by
  subst hkind
  have hintypes : (n.ports .input).map Port.dataType = _ := hn.inputs_typed
  have houttypes : (n.ports .output).map Port.dataType = _ := hn.outputs_typed
  have hinputs := portTypes_of_specs hintypes hin
  have houtputs := portTypes_of_specs houttypes hout
  refine ⟨inputs, outputs, hinputs, houtputs, hargs, ?_⟩
  intro id name
  obtain ⟨f, hf⟩ := exists_function_of_stock hstock (portTypes_natives hintypes hinputs)
    (portTypes_natives houttypes houtputs) heval id name
  have htyped : f.wellTyped = true := hn.emitsChecked (fun k hk => absurd hk (hstock k)) f
    ⟨id, name, inputs, outputs, hinputs, houtputs, hf⟩
  have hown := computation_ne_code (n := n) hstock
  have hruns : ∀ (m : Memory) (start : Nat), m.HasSlots start outputs →
      f.runLeaf (args ++ Memory.slotAddresses start outputs.length) m =
        .ok (m.fillSlots start (results.map Word.image)) := by
    intro m start hslots
    obtain ⟨results', heval', -, hrun⟩ := function_runs hf hown htyped hargs hslots
    rw [heval] at heval'
    cases heval'
    exact hrun
  exact ⟨f, hf, htyped, hruns, fun m start hslots _ _ hdivides =>
    hdivides.hasQuotient (hruns m start hslots)⟩

end Node

/-! ## Results on integers -/

namespace Integers

variable {ty : DataType} {w : Nat} {mk : BitVec w → Word}

theorem exists_native (h : Integers ty w mk) :
    ∃ native, ty.native = some native ∧ IntWords w native mk := by
  cases h with
  | i32 => exact ⟨.i32, rfl, .i32⟩
  | i64 => exact ⟨.i64, rfl, .i64⟩

theorem math_eval? (h : Integers ty w mk) (op : MathOp) (x y : BitVec w) :
    op.eval? ty (mk x) (mk y) = some (mk (op.onInts x y)) := by
  cases h <;> rfl

theorem compare_eval? (h : Integers ty w mk) (op : CompareOp) (x y : BitVec w) :
    op.eval? ty (mk x) (mk y) = some (.ofBool (decide (op.Holds x.toInt y.toInt))) := by
  rw [← CompareOp.holdsInts_eq]
  cases h <;> rfl

end Integers

/-- The least number has no negative of its own width, so it is its own quotient by -1. -/
theorem MathOp.onInts_div_least {w : Nat} (hw : 1 < w) :
    MathOp.div.onInts (BitVec.intMin w) (-1) = BitVec.intMin w := by
  calc (BitVec.intMin w).sdiv (-1) = -(BitVec.intMin w).sdiv 1 :=
        BitVec.sdiv_neg (one_ne_special hw).2.2
    _ = -BitVec.intMin w := congrArg _ BitVec.sdiv_one
    _ = BitVec.intMin w := BitVec.neg_intMin

theorem IntWords.bodyDivides_checkedDivision {w : Nat} {native : Ty} {mk : BitVec w → Word}
    (hmk : IntWords w native mk) {calls : Calls} {f : Function} {env : Env} {m : Memory}
    (site : EmitSite) (hfirst : 1 < site.first) {x y : BitVec w}
    (hx : env.lookup 0 = some (mk x)) (hy : env.lookup 1 = some (mk y)) (is : List Instr) :
    BodyDivides calls f env m ((site.checkedDivision 0 1 native).body ++ is) (mk x)
      (mk (safeDivisor y)) := by
  have hzero : 0 < site.first := Nat.lt_of_succ_lt hfirst
  obtain ⟨values, -, hdivisor, hvalues⟩ := hmk.evaluate_checkedDivision hzero hfirst hx hy
  refine .of_evaluate (k := 6) (hvalues m) rfl ?_ ?_ is
  · rw [Env.lookup_extend_of_lt hzero]
    exact hx
  · have hknown : (values.take 6)[5]? = some (mk (safeDivisor y)) := by
      rw [List.getElem?_take_of_lt (by decide)]
      exact hdivisor
    exact Env.lookup_extend hknown

/-! ## What a node of a stock kind computes -/

namespace Node

/-- The node computes what the documentation of its kind says, for all integers and truth
values. -/
structure FollowsKind (n : Node) : Prop where
  math : ∀ {op : MathOp} {ty : DataType} {w : Nat} {mk : BitVec w → Word}, Integers ty w mk →
    n.kind = .math op ty → ∀ x y : BitVec w,
      n.Computes [mk x, mk y] [mk (BitVec.ofInt w (op.exact x.toInt y.toInt))]
  divide_by_zero : ∀ {ty : DataType} {w : Nat} {mk : BitVec w → Word}, Integers ty w mk →
    n.kind = .math .div ty → ∀ x : BitVec w, n.Computes [mk x, mk 0] [mk 0]
  divide_least : ∀ {ty : DataType} {w : Nat} {mk : BitVec w → Word}, Integers ty w mk →
    n.kind = .math .div ty →
      n.Computes [mk (BitVec.intMin w), mk (-1)] [mk (BitVec.intMin w)]
  divides : ∀ {ty : DataType} {w : Nat} {mk : BitVec w → Word}, Integers ty w mk →
    n.kind = .math .div ty → ∀ f, n.IsFunction f → ∀ (x y : BitVec w) address m,
      f.Divides [mk x, mk y, address] m (mk x) (mk (safeDivisor y))
  compare : ∀ {op : CompareOp} {ty : DataType} {w : Nat} {mk : BitVec w → Word},
    Integers ty w mk → n.kind = .compare op ty → ∀ x y : BitVec w,
      n.Computes [mk x, mk y] [.ofBool (decide (op.Holds x.toInt y.toInt))]
  equal : n.kind = .compare .eq .bool → ∀ p q, n.Computes [.ofBool p, .ofBool q] [.ofBool (p == q)]
  unequal : n.kind = .compare .ne .bool → ∀ p q,
    n.Computes [.ofBool p, .ofBool q] [.ofBool (p != q)]
  select : ∀ {ty : DataType} {native : Ty}, ty.native = some native → n.kind = .select ty →
    ∀ (condition : BitVec 8) {x y : Word}, x.IsScalar native → y.IsScalar native →
      n.Computes [.i8 condition, x, y] [if condition ≠ 0 then x else y]
  clamp : ∀ {ty : DataType} {w : Nat} {mk : BitVec w → Word}, Integers ty w mk →
    n.kind = .clamp ty → ∀ x low high : BitVec w, ∃ r : BitVec w,
      r.toInt = min (max x.toInt low.toInt) high.toInt ∧
      n.Computes [mk x, mk low, mk high] [mk r] ∧
      r.toInt ≤ high.toInt ∧ (low.toInt ≤ high.toInt → low.toInt ≤ r.toInt) ∧
      n.Computes [mk r, mk low, mk high] [mk r]
  constant : ∀ {v : Value}, n.kind = .constant v →
    n.Computes [] [v.word] ∧ Value.ofWord? v.dataType v.word = some v

variable {n : Node}

section

variable {ty : DataType} {w : Nat} {mk : BitVec w → Word}

theorem WellFormed.computes_math (hn : n.WellFormed) (hty : Integers ty w mk) {op : MathOp}
    (hkind : n.kind = .math op ty) (x y : BitVec w) :
    n.Computes [mk x, mk y] [mk (op.onInts x y)] := by
  obtain ⟨native, hnative, hmk⟩ := hty.exists_native
  apply hn.computes hkind nofun [native, native] [native]
  · simp [Kind.inputs, hnative]
  · simp [Kind.outputs, hnative]
  · exact .cons (hmk.scalar x) (.cons (hmk.scalar y) .nil)
  · simp only [Kind.computation, Computation.eval?, hty.math_eval?, Option.map_some]

/-- What divides is the divisor that stands in for the given one. -/
theorem WellFormed.divides (hn : n.WellFormed) (hty : Integers ty w mk)
    (hkind : n.kind = .math .div ty) {f : Function} (hf : n.IsFunction f) (x y : BitVec w)
    (address : Word) (m : Memory) :
    f.Divides [mk x, mk y, address] m (mk x) (mk (safeDivisor y)) := by
  obtain ⟨id, name, inputs, outputs, hinputs, houtputs, hfunction⟩ := hf
  obtain ⟨native, hnative, hmk⟩ := hty.exists_native
  obtain ⟨hin, hout⟩ : n.portTypes .input = .ok [native, native] ∧
      n.portTypes .output = .ok [native] := by
    refine ⟨portTypes_of_specs hn.inputs_typed ?_, portTypes_of_specs hn.outputs_typed ?_⟩
    · simp [hkind, Kind.inputs, hnative]
    · simp [hkind, Kind.outputs, hnative]
  cases hinputs.symm.trans hin
  cases houtputs.symm.trans hout
  have hfirst : 1 < 3 := by decide
  obtain ⟨nodeName, kind, inPorts, outPorts⟩ := n
  cases hkind
  cases hty with
  | i32 =>
      cases hnative
      cases hfunction
      exact .body rfl rfl (hmk.bodyDivides_checkedDivision ⟨nodeName, _, _, 3⟩ hfirst rfl rfl _)
  | i64 =>
      cases hnative
      cases hfunction
      exact .body rfl rfl (hmk.bodyDivides_checkedDivision ⟨nodeName, _, _, 3⟩ hfirst rfl rfl _)

theorem WellFormed.computes_clamp (hn : n.WellFormed) (hty : Integers ty w mk)
    (hkind : n.kind = .clamp ty) (x low high : BitVec w) :
    n.Computes [mk x, mk low, mk high]
      [mk (MathOp.min.onInts (MathOp.max.onInts x low) high)] := by
  obtain ⟨native, hnative, hmk⟩ := hty.exists_native
  apply hn.computes hkind nofun [native, native, native] [native]
  · simp [Kind.inputs, hnative]
  · simp [Kind.outputs, hnative]
  · exact .cons (hmk.scalar x) (.cons (hmk.scalar low) (.cons (hmk.scalar high) .nil))
  · simp only [Kind.computation, Computation.eval?, hty.math_eval?, Option.bind_some,
      Option.map_some]

theorem WellFormed.computes_compare (hn : n.WellFormed) (hty : Integers ty w mk) {op : CompareOp}
    (hkind : n.kind = .compare op ty) (x y : BitVec w) :
    n.Computes [mk x, mk y] [.ofBool (decide (op.Holds x.toInt y.toInt))] := by
  obtain ⟨native, hnative, hmk⟩ := hty.exists_native
  apply hn.computes hkind nofun [native, native] [.i8]
  · simp [Kind.inputs, hnative]
  · simp [Kind.outputs, DataType.native]
  · exact .cons (hmk.scalar x) (.cons (hmk.scalar y) .nil)
  · simp only [Kind.computation, Computation.eval?, hty.compare_eval?, Option.map_some]

end

/-- Truth values are compared as bytes. -/
theorem WellFormed.computes_compareTruth (hn : n.WellFormed) {op : CompareOp}
    (hkind : n.kind = .compare op .bool) {x y : BitVec 8} {w : Word}
    (heval : op.eval? .bool (.i8 x) (.i8 y) = some w) : n.Computes [.i8 x, .i8 y] [w] := by
  apply hn.computes hkind nofun [.i8, .i8] [.i8]
  · simp [Kind.inputs, DataType.native]
  · simp [Kind.outputs, DataType.native]
  · exact .cons ⟨rfl, rfl⟩ (.cons ⟨rfl, rfl⟩ .nil)
  · simp only [Kind.computation, Computation.eval?, heval, Option.map_some]

theorem WellFormed.computes_select (hn : n.WellFormed) {ty : DataType} {native : Ty}
    (hnative : ty.native = some native) (hkind : n.kind = .select ty) (condition : BitVec 8)
    {x y : Word} (hx : x.IsScalar native) (hy : y.IsScalar native) :
    n.Computes [.i8 condition, x, y] [if condition ≠ 0 then x else y] := by
  apply hn.computes hkind nofun [.i8, native, native] [native]
  · change [some Ty.i8, ty.native, ty.native] = _
    rw [hnative]
    rfl
  · simp [Kind.outputs, hnative]
  · exact .cons ⟨rfl, rfl⟩ (.cons hx (.cons hy .nil))
  · simp only [Kind.computation, Computation.eval?, Word.isTrue?, Option.map_some,
      bne_iff_ne]

theorem WellFormed.computes_constant (hn : n.WellFormed) {v : Value}
    (hkind : n.kind = .constant v) : n.Computes [] [v.word] := by
  apply hn.computes hkind nofun [] [v.word.ty]
  · simp [Kind.inputs]
  · simp [Kind.outputs, v.native_dataType]
  · exact .nil
  · simp only [Kind.computation, Computation.eval?]

theorem WellFormed.followsKind (hn : n.WellFormed) : n.FollowsKind where
  math := by
    intro op ty w mk hty hkind x y
    rw [← MathOp.onInts_eq]
    exact hn.computes_math hty hkind x y
  divide_by_zero := by
    intro ty w mk hty hkind x
    have hzero : MathOp.div.onInts x 0 = 0 := BitVec.sdiv_zero
    have hcomputes := hn.computes_math hty hkind x 0
    rwa [hzero] at hcomputes
  divide_least := by
    intro ty w mk hty hkind
    obtain ⟨native, -, hmk⟩ := hty.exists_native
    have hleast := hn.computes_math hty hkind (BitVec.intMin w) (-1)
    rwa [MathOp.onInts_div_least hmk.wide] at hleast
  divides := fun hty hkind _ hf => hn.divides hty hkind hf
  compare := fun hty hkind => hn.computes_compare hty hkind
  equal := by
    intro hkind p q
    apply hn.computes_compareTruth hkind
    cases p <;> cases q <;> rfl
  unequal := by
    intro hkind p q
    apply hn.computes_compareTruth hkind
    cases p <;> cases q <;> rfl
  select := hn.computes_select
  clamp := by
    intro ty w mk hty hkind x low high
    have hresult := toInt_clamp x low high
    refine ⟨_, hresult, hn.computes_clamp hty hkind x low high, ?_, ?_, ?_⟩
    · rw [hresult]
      exact clampInt_le ..
    · intro hle
      rw [hresult]
      exact le_clampInt hle _
    · have hagain := hn.computes_clamp hty hkind
        (MathOp.min.onInts (MathOp.max.onInts x low) high) low high
      have hsame : MathOp.min.onInts (MathOp.max.onInts
          (MathOp.min.onInts (MathOp.max.onInts x low) high) low) high =
            MathOp.min.onInts (MathOp.max.onInts x low) high := by
        apply BitVec.eq_of_toInt_eq
        rw [toInt_clamp, hresult, clampInt_clampInt]
      rwa [hsame] at hagain
  constant := fun hkind => ⟨hn.computes_constant hkind, Value.ofWord?_word _⟩

end Node

end Dataflow
