import Dataflow.Proofs.Kind.Emission
import Dataflow.Unit.NodeFunction

/-!
# Functions of nodes leave their results in slots

`Node.function_runs`: a node's function that passes the type check, called with scalars of
its input types and the addresses of consecutive slots, ends with the results of the node's
computation in those slots and nothing else changed. For code of a host's own these results are
by definition what the code leaves in slots of its own, and `Node.results?_eq_eval?` says of every
node that its function leaves the results of its computation there.
-/

namespace Dataflow

open Ir

/-! ## Storing results and running a node's function -/

/-- What a host kind promises of code of its own: it ends, whatever values the inputs have. -/
def Node.OwnCodeEnds (n : Node) : Prop :=
  ∀ own inputs, n.kind.computation = .code own → n.portTypes .input = .ok inputs →
    ∀ args, Scalars inputs args → (own.eval? args).isSome

/-- Words that fill a frame are found there. -/
theorem ofBytes_fillSlots_frame {types : List Ty} {words : List Word}
    (h : Scalars types words) :
    List.zipWith Word.ofBytes types
      ((Memory.frame types).fillSlots 0 (words.map Word.image)).slots = words := by
  have hlength : (words.map Word.image).length = (Memory.frame types).slots.length := by
    simp [Memory.frame, Memory.freshSlots, List.Forall₂.length_eq h]
  rw [Memory.fillSlots_eq (by omega), List.take_zero, List.nil_append,
    List.drop_eq_nil_of_le (by omega), List.append_nil]
  dsimp only
  clear hlength
  induction h with
  | nil => rfl
  | cons hw _ ih => rw [List.map_cons, List.zipWith_cons_cons, hw.ofBytes_image, ih]

namespace Node

variable {m : Memory} {start : Nat} {types : List Ty}

theorem storeResults_runs (calls : Calls) (f : Function) {env : Env}
    {results targets : List Operand} {words : List Word} {stores : List Instr}
    (h : storeResults results targets types = .ok stores)
    (hresults : List.Forall₂ (Operand.Holds env) results words)
    (hlength : results.length = types.length)
    (htargets : List.Forall₂ (fun (target : Operand) w => env.lookup target.1 = some w) targets
      (Memory.slotAddresses start types.length))
    (hslots : m.HasSlots start types) :
    Scalars types words ∧
      runBody calls f env m stores = .ok (env, m.fillSlots start (words.map Word.image)) := by
  induction types generalizing results targets words stores m start with
  | nil =>
      rw [List.length_nil, List.length_eq_zero_iff] at hlength
      subst hlength
      cases hresults
      cases h
      exact ⟨.nil, rfl⟩
  | cons ty types ih =>
      cases hresults with
      | nil => contradiction
      | @cons result w results words hresult hresults =>
          rw [List.length_cons, Memory.slotAddresses, List.range'_succ, List.map_cons] at htargets
          obtain ⟨target, rest, htarget, hrest, rfl⟩ := List.forall₂_cons_right_iff.1 htargets
          unfold storeResults at h
          split at h
          · rename_i hty
            subst hty
            obtain ⟨stored, hstored, h⟩ := bind_eq_ok h
            cases h
            have hroom : m.slotSizes[start]? = some result.2.size := hslots 0 _ rfl
            have hput : (m.put (.slot start) w.image).slotSizes = m.slotSizes :=
              Memory.slotSizes_put (by rw [hresult.1.length_image, hroom])
            obtain ⟨hscalars, hrun⟩ := ih hstored hresults (by simpa using hlength) hrest
              (hslots.tail.congr hput)
            refine ⟨.cons hresult.1 hscalars, ?_⟩
            rw [runBody_store hresult.2 htarget (Memory.store_slot hresult.1 hroom), hrun]
            rfl
          · contradiction

theorem storeResults_eq_ok {results : List Operand} {first : Nat} {stores : List Instr}
    (h : storeResults results (numbered first (types.map fun _ => Ty.address)) types = .ok stores)
    (hlength : results.length = types.length) :
    results.map Prod.snd = types ∧
      stores = results.mapIdx fun k result => .store result.1 (first + k) 0 := by
  induction types generalizing results first stores with
  | nil =>
      rw [List.length_nil, List.length_eq_zero_iff] at hlength
      subst hlength
      cases h
      exact ⟨rfl, rfl⟩
  | cons ty types ih =>
      cases results with
      | nil => contradiction
      | cons result results =>
          rw [List.map_cons, numbered_cons] at h
          unfold storeResults at h
          split at h
          · rename_i hty
            obtain ⟨stored, hstored, h⟩ := bind_eq_ok h
            cases h
            obtain ⟨htypes, hstores⟩ := ih hstored (by simpa using hlength)
            rw [List.map_cons, hty, htypes, List.mapIdx_cons, hstores]
            simp only [Nat.add_zero, Nat.add_assoc, Nat.add_comm 1, and_self]
          · contradiction

/-- What a node's function consists of. -/
theorem function_eq_ok {n : Node} {id : Nat} {name : String} {inputs outputs : List Ty}
    {f : Function} (h : n.function id name inputs outputs = .ok f) :
    f.id = id ∧ f.name = name ∧ f.params = inputs ++ outputs.map (fun _ => Ty.address) ∧
      f.Plain ∧ ∃ site fragment stores,
        EmitSite.Serves site inputs (outputs.map fun _ => Ty.address) ∧
        n.kind.computation.emit site = .ok fragment ∧
        fragment.results.length = outputs.length ∧
        storeResults fragment.results
          (numbered inputs.length (outputs.map fun _ => Ty.address)) outputs = .ok stores ∧
        f.blocks = fragment.blocks ++ [⟨fragment.params, fragment.body ++ stores, .leave⟩] := by
  unfold function at h
  simp only [numbered_zero, drop_numbered, take_numbered, Nat.zero_add] at h
  obtain ⟨fragment, hemit, h⟩ := bind_eq_ok h
  split at h
  · contradiction
  · rename_i hcount
    obtain ⟨stores, hstores, h⟩ := bind_eq_ok h
    cases h
    exact ⟨rfl, rfl, rfl, ⟨rfl, rfl, rfl⟩, _, fragment, stores, ⟨rfl, rfl, List.length_append⟩,
      hemit, not_not.1 hcount, hstores, rfl⟩

theorem forall₂_numbered {env : Env} {first : Nat} {types : List Ty} {words : List Word}
    (hlength : types.length = words.length)
    (h : ∀ k w, words[k]? = some w → env.lookup (first + k) = some w) :
    List.Forall₂ (fun (target : Operand) w => env.lookup target.1 = some w)
      (numbered first types) words := by
  induction types generalizing first words with
  | nil =>
      rw [List.length_nil, eq_comm, List.length_eq_zero_iff] at hlength
      subst hlength
      exact .nil
  | cons ty types ih =>
      cases words with
      | nil => contradiction
      | cons w words =>
          rw [numbered_cons]
          refine .cons (h 0 w rfl) (ih (by simpa using hlength) ?_)
          intro k x hk
          rw [Nat.add_assoc, Nat.add_comm 1]
          exact h (k + 1) x hk

/-- Neither its id nor its name has an effect on the code of a function. -/
theorem function_rename (n : Node) (id id' : Nat) (name name' : String)
    (inputs outputs : List Ty) :
    n.function id' name' inputs outputs =
      (n.function id name inputs outputs).map fun f => { f with id := id', name := name' } := by
  unfold function
  simp only
  cases n.kind.computation.emit _ with
  | error e => rfl
  | ok fragment =>
      simp only [bind, Except.bind]
      split
      · rfl
      · cases storeResults fragment.results _ outputs with
        | error e => rfl
        | ok stores => rfl

section

variable {n : Node} {id : Nat} {name : String} {inputs outputs : List Ty} {f : Function}
  (h : n.function id name inputs outputs = .ok f)

include h

theorem plain_of_function : f.Plain := (function_eq_ok h).2.2.2.1

theorem function_runs (hown : ∀ own, n.kind.computation ≠ .code own)
    (htyped : f.wellTyped = true) {args : List Word} (hargs : Scalars inputs args)
    (hslots : m.HasSlots start outputs) :
    ∃ results, n.kind.computation.eval? args = some results ∧ Scalars outputs results ∧
      f.runLeaf (args ++ Memory.slotAddresses start outputs.length) m =
        .ok (m.fillSlots start (results.map Word.image)) := by
  obtain ⟨-, -, -, -, site, fragment, stores, hsite, hemit, hcount, hstores, hblocks⟩ :=
    function_eq_ok h
  have hextra : (Memory.slotAddresses start outputs.length).length =
      (outputs.map fun _ => Ty.address).length := by simp [Memory.slotAddresses]
  obtain ⟨results, hresults, env, hparams, hholds, hrun⟩ :=
    Computation.emit_delivers hown hsite hemit hblocks htyped hargs hextra
  have hinputs : inputs.length = args.length := List.Forall₂.length_eq hargs
  have htargets : List.Forall₂ (fun (target : Operand) w => env.lookup target.1 = some w)
      (numbered inputs.length (outputs.map fun _ => Ty.address))
      (Memory.slotAddresses start outputs.length) := by
    apply forall₂_numbered hextra.symm
    intro k w hk
    apply hparams
    rw [hinputs, List.getElem?_append_right (Nat.le_add_right _ _), Nat.add_sub_cancel_left]
    exact hk
  obtain ⟨hscalars, hstored⟩ := storeResults_runs (fun _ _ _ => .error .badCall) f hstores hholds
    hcount htargets hslots
  refine ⟨results, hresults, hscalars, ?_⟩
  rw [Function.runLeaf, hrun, hstored]
  rfl

/-- What code of a host's own leaves in its slots is what its function does. -/
theorem results?_of_code {own : Fragment} (hown : n.kind.computation = .code own)
    {args : List Word} (hlength : inputs.length = args.length) :
    f.results? outputs args = own.eval? args := by
  obtain ⟨-, -, -, hplain, site, fragment, stores, -, hemit, hcount, hstores, hblocks⟩ :=
    function_eq_ok h
  rw [hown] at hemit
  cases hemit
  obtain ⟨rfl, rfl⟩ := storeResults_eq_ok hstores hcount
  rw [hlength] at hblocks
  have hplain' : (own.function args.length).Plain := ⟨rfl, rfl, rfl⟩
  exact congrFun (congrFun (Function.results?_congr hplain hplain' hblocks) _) args

/-- On values of its inputs a function that passes the check makes what the kind says. -/
theorem results?_eq_eval? (htyped : f.wellTyped = true) {args : List Word}
    (hargs : Scalars inputs args) :
    f.results? outputs args = n.kind.computation.eval? args := by
  by_cases hown : ∃ own, n.kind.computation = .code own
  · obtain ⟨own, hown⟩ := hown
    rw [results?_of_code h hown (List.Forall₂.length_eq hargs), hown]
    cases args <;> rfl
  · have hslots := (Memory.hasFreshSlots_frame outputs).hasSlots
    obtain ⟨results, hresults, hscalars, hrun⟩ :=
      function_runs h (fun own heq => hown ⟨own, heq⟩) htyped hargs hslots
    rw [Function.results?, hrun, hresults]
    exact congrArg some (ofBytes_fillSlots_frame hscalars)

/-- All code but a host's own gives results. -/
theorem eval?_isSome (hinputs : n.portTypes .input = .ok inputs)
    (htyped : f.wellTyped = true) (hends : n.OwnCodeEnds) {args : List Word}
    (hargs : Scalars inputs args) : (n.kind.computation.eval? args).isSome := by
  by_cases hown : ∃ own, n.kind.computation = .code own
  · obtain ⟨own, hown⟩ := hown
    have hresults := hends own inputs hown hinputs args hargs
    rw [hown]
    cases args <;> exact hresults
  · obtain ⟨results, hresults, -⟩ := function_runs h (fun own heq => hown ⟨own, heq⟩) htyped hargs
      (Memory.hasFreshSlots_frame outputs).hasSlots
    rw [hresults]
    rfl

end

/-! ## Functions generated for nodes -/

/-- The function was made for the node and the types of its ports. -/
def IsFunction (n : Node) (f : Function) : Prop :=
  ∃ id name inputs outputs, n.portTypes .input = .ok inputs ∧ n.portTypes .output = .ok outputs ∧
    n.function id name inputs outputs = .ok f

/-- What the node's function makes of its arguments, and nothing where the node has no function. -/
def results? (n : Node) (args : List Word) : Option (List Word) :=
  match n.portTypes .input, n.portTypes .output with
  | .ok inputs, .ok outputs =>
      match n.function 0 n.name inputs outputs with
      | .ok f => f.results? outputs args
      | .error _ => none
  | _, _ => none

theorem results?_of_function {n : Node} {id : Nat} {name : String} {inputs outputs : List Ty}
    {f : Function} (hinputs : n.portTypes .input = .ok inputs)
    (houtputs : n.portTypes .output = .ok outputs)
    (h : n.function id name inputs outputs = .ok f) : n.results? = f.results? outputs := by
  have hplain := plain_of_function h
  have hrenamed : n.function 0 n.name inputs outputs = .ok { f with id := 0, name := n.name } := by
    rw [n.function_rename id 0 name n.name, h]
    rfl
  funext args
  rw [results?, hinputs, houtputs]
  simp only [hrenamed]
  have hsame := Function.results?_congr (plain_of_function hrenamed) hplain rfl
  exact congrFun (congrFun hsame outputs) args

/-- Results are scalars of the output types. -/
theorem results?_scalars {n : Node} {args results : List Word}
    (hargs : ∀ w ∈ args, w.toBytes.isSome) (h : n.results? args = some results) :
    ∃ outputs, n.portTypes .output = .ok outputs ∧ Scalars outputs results := by
  unfold results? at h
  split at h
  · rename_i inputs outputs _ houtputs
    split at h
    · rename_i f hf
      exact ⟨outputs, houtputs, Function.scalars_of_results (plain_of_function hf) hargs h⟩
    · contradiction
  · contradiction

theorem generate_eq_ok {n : Node} {name : String} {f : Function} {t t' : SymbolTable}
    (h : (n.generate name).run t = (.ok f, t')) :
    ∃ id inputs outputs, n.portTypes .input = .ok inputs ∧ n.portTypes .output = .ok outputs ∧
      t.declareFunction name .internal (inputs ++ outputs.map fun _ => Ty.address) =
        (.ok id, t') ∧
      n.function id name inputs outputs = .ok f := by
  obtain ⟨inputs, t₁, hrun₁, hrest₁⟩ := Generation.run_bind_eq_ok h
  obtain ⟨hinputs, rfl⟩ := Generation.run_ofExcept_eq_ok hrun₁
  obtain ⟨outputs, t₂, hrun₂, hrest₂⟩ := Generation.run_bind_eq_ok hrest₁
  obtain ⟨houtputs, rfl⟩ := Generation.run_ofExcept_eq_ok hrun₂
  obtain ⟨id, t₃, hid, hrest₃⟩ := Generation.run_bind_eq_ok hrest₂
  obtain ⟨hf, rfl⟩ := Generation.run_ofExcept_eq_ok hrest₃
  exact ⟨id, inputs, outputs, hinputs, houtputs, Generation.run_declareFunction_eq_ok hid,
    mapError_eq_ok hf⟩

end Node

theorem mem_of_mem_nodeSymbols {label name : String} {taken : List String} {nodes : List Node}
    {n : Node} (h : (n, name) ∈ nodeSymbols label taken nodes) : n ∈ nodes := by
  induction nodes generalizing taken with
  | nil => contradiction
  | cons first nodes ih =>
      unfold nodeSymbols at h
      rcases List.mem_cons.1 h with h | h
      · cases h
        exact List.mem_cons_self
      · exact List.mem_cons_of_mem _ (ih h)

theorem isFunction_of_mem_generateNodes {symbols : List (Node × String)}
    {functions : List (String × Function)} {t t' : SymbolTable}
    (h : (generateNodes symbols).run t = (.ok functions, t')) {name : String} {f : Function}
    (hf : (name, f) ∈ functions) :
    ∃ n symbol, (n, symbol) ∈ symbols ∧ n.name = name ∧ n.IsFunction f := by
  induction symbols generalizing functions t t' with
  | nil =>
      obtain ⟨rfl, -⟩ := Generation.run_pure_eq_ok h
      contradiction
  | cons entry symbols ih =>
      obtain ⟨n, symbol⟩ := entry
      obtain ⟨first, t₁, hfirst, h₁⟩ := Generation.run_bind_eq_ok h
      obtain ⟨rest, t₂, hrest, h₂⟩ := Generation.run_bind_eq_ok h₁
      obtain ⟨rfl, -⟩ := Generation.run_pure_eq_ok h₂
      rcases List.mem_cons.1 hf with hf | hf
      · cases hf
        obtain ⟨id, inputs, outputs, hinputs, houtputs, -, hfunction⟩ :=
          Node.generate_eq_ok hfirst
        exact ⟨n, symbol, List.mem_cons_self, rfl, id, symbol, inputs, outputs, hinputs, houtputs,
          hfunction⟩
      · obtain ⟨m, s, hm, hrest⟩ := ih hrest hf
        exact ⟨m, s, List.mem_cons_of_mem _ hm, hrest⟩

end Dataflow
