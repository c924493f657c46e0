import Dataflow.Proofs.Graph.Values
import Dataflow.Proofs.Unit.NodeFunction
import Dataflow.Proofs.Unit.Plan

/-!
# Words that pass between functions

`Graph.Carries` says which word an output has in a run, each node making of its inputs what its
function does. Where the functions pass the type check and inputs are fed by outputs of their own
types, this word is the value of the output: `SoundAmong.hasScalar`. The functions trap where the
computations of the nodes have no results, which only code of hosts' own can bring about.
-/

namespace Dataflow

open Ir

/-- The output carries this word in a run, each node making of its inputs what its function does. -/
abbrev Graph.Carries (g : Graph) (supplied : List (PortRef × Value)) (cells : PortRef → Value) :
    PortRef → Word → Prop :=
  g.HasValueBy Node.results? supplied cells

/-- Words that are carried are scalars. -/
theorem Graph.Carries.toBytes {g : Graph} {supplied : List (PortRef × Value)}
    {cells : PortRef → Value} {port : PortRef} {w : Word} (h : g.Carries supplied cells port w) :
    w.toBytes.isSome := by
  induction h with
  | supplied _ => exact Value.toBytes_word _
  | @computed port n args results k w _ _ hlength _ hcells hresults _ hw ih =>
      have hargs : ∀ x ∈ args, x.toBytes.isSome := by
        intro x hx
        obtain ⟨i, hi⟩ := List.getElem?_of_mem hx
        obtain ⟨hlt, rfl⟩ := List.getElem?_eq_some_iff.1 hi
        have hmem : (n.inputs[i], args[i]) ∈ n.inputs.zip args :=
          List.mem_iff_getElem.2 ⟨i, by simp [hlength]; omega, List.getElem_zip⟩
        cases hresolve : g.resolve? (n.portRef n.inputs[i]) with
        | none =>
            rw [hcells _ _ hmem hresolve]
            exact Value.toBytes_word _
        | some origin => exact ih _ _ hmem origin hresolve
      obtain ⟨outputs, -, hscalars⟩ := Node.results?_scalars hargs hresults
      rcases hscalars.getElem? k with ⟨-, hnone⟩ | ⟨ty, x, -, hx, hscalar⟩
      · rw [hw] at hnone
        contradiction
      · rw [hw] at hx
        cases hx
        exact hscalar.2

/-! ## Inputs -/

namespace EntryContext

/-- The word is passed for an input in a run. -/
def InputCarries (g : Graph) (supplied : List (PortRef × Value)) (cells : PortRef → Value)
    (n : Node) (p : Port) (w : Word) : Prop :=
  (∀ origin, g.resolve? (n.portRef p) = some origin → g.Carries supplied cells origin w) ∧
    (g.resolve? (n.portRef p) = none → w = (cells (n.portRef p)).word)

variable {g : Graph} {supplied : List (PortRef × Value)} {cells : PortRef → Value} {n : Node}
  {p : Port} {v w : Word}

theorem InputCarries.toBytes (h : InputCarries g supplied cells n p w) : w.toBytes.isSome := by
  cases hresolve : g.resolve? (n.portRef p) with
  | none =>
      rw [h.2 hresolve]
      exact Value.toBytes_word _
  | some origin => exact (h.1 origin hresolve).toBytes

theorem InputCarries.unique (hv : InputCarries g supplied cells n p v)
    (hw : InputCarries g supplied cells n p w) : v = w := by
  cases hresolve : g.resolve? (n.portRef p) with
  | none => rw [hv.2 hresolve, hw.2 hresolve]
  | some origin => exact (hv.1 origin hresolve).unique (hw.1 origin hresolve)

end EntryContext

namespace Graph

section

variable (g : Graph) (supplied : List (PortRef × Value)) (cells : PortRef → Value) (n : Node)

/-- The words of the node's inputs are such that its function ends. -/
def Proceeds : Prop :=
  ∃ words results, List.Forall₂ (EntryContext.InputCarries g supplied cells n) n.inputs words ∧
    n.results? words = some results

/-- The words of the node's inputs are such that its function traps. -/
def Sticks : Prop :=
  ∃ words, List.Forall₂ (EntryContext.InputCarries g supplied cells n) n.inputs words ∧
    n.results? words = none

end

variable {g : Graph} {supplied : List (PortRef × Value)} {cells : PortRef → Value} {n : Node}

theorem Proceeds.not_sticks (h : g.Proceeds supplied cells n) :
    ¬ g.Sticks supplied cells n := by
  obtain ⟨words, results, hwords, hresults⟩ := h
  rintro ⟨words', hwords', hnone⟩
  have hsame : words = words' :=
    List.right_unique_forall₂' (fun _ _ _ hv hw => hv.unique hw) hwords hwords'
  rw [← hsame, hresults] at hnone
  contradiction

theorem outputIndex?_of_getElem? {n : Node} (hn : n.WellFormed) {k : Nat} {p : Port}
    (h : n.outputs[k]? = some p) : n.outputIndex? p.identifier = some k := by
  obtain ⟨hlt, rfl⟩ := List.getElem?_eq_some_iff.1 h
  rw [Node.outputIndex?, List.findIdx?_eq_some_iff_getElem]
  refine ⟨hlt, by simp, ?_⟩
  intro j hj
  rw [Bool.not_eq_true, beq_eq_false_iff_ne]
  intro heq
  have hnodup := List.pairwise_iff_getElem.1 hn.outputs_nodup j k
    (by simp; omega) (by simpa using hlt) hj
  simp only [List.getElem_map] at hnodup
  exact hnodup heq

/-- The results of a node's function on the words of its inputs are carried by its outputs. -/
theorem carries_of_results (hg : g.WellFormed) (hn : n ∈ g.nodes)
    (hfree : ∀ s ∈ supplied, s.1.node ≠ n.name)
    {words results : List Word}
    (hinputs : List.Forall₂ (EntryContext.InputCarries g supplied cells n) n.inputs words)
    (hresults : n.results? words = some results) {k : Nat} {p : Port} {w : Word}
    (hp : n.outputs[k]? = some p) (hw : results[k]? = some w) :
    g.Carries supplied cells (n.portRef p) w := by
  obtain ⟨hlength, hcarries⟩ := List.forall₂_iff_zip.1 hinputs
  exact .computed hfree (Graph.node?_of_mem hg.names_nodup hn) hlength
    (fun _ _ hx => (hcarries hx).1) (fun _ _ hx => (hcarries hx).2) hresults
    (outputIndex?_of_getElem? (hg.nodes_wellFormed n hn) hp) hw

end Graph

/-! ## Values -/

/-- The output has this word as its value, and the word is a scalar of its type. -/
def Graph.HasScalar (g : Graph) (supplied : List (PortRef × Value)) (cells : PortRef → Value)
    (port : PortRef) (w : Word) : Prop :=
  g.HasValue supplied cells port w ∧
    ∃ ty native, g.HasOutput port ty ∧ ty.native = some native ∧ w.IsScalar native

/-- The node has a function that passes the type check. -/
def Node.Checked (n : Node) : Prop := ∃ f, n.IsFunction f ∧ f.wellTyped = true

/-- The inputs of the node read outputs of their own types. -/
def Graph.Fed (g : Graph) (n : Node) : Prop :=
  ∀ p ∈ n.inputs, ∀ origin, g.resolve? (n.portRef p) = some origin →
    g.HasOutput origin p.dataType

theorem Graph.ReroutesTyped.fed {g : Graph} (h : g.ReroutesTyped) (hg : g.WellFormed) {n : Node}
    (hn : n ∈ g.nodes) : g.Fed n := fun _ hp _ horigin =>
  hasOutput_resolve? hg h (hg.port_of_mem hn (show _ ∈ n.ports .input from hp)) horigin

/-- Nodes that read from each other only and, where they are computed, are checked and fed with
words of the right types. -/
structure Graph.SoundAmong (g : Graph) (supplied : List (PortRef × Value))
    (cells : PortRef → Value) (names : String → Prop) : Prop where
  checked : ∀ n ∈ g.nodes, names n.name → (∀ s ∈ supplied, s.1.node ≠ n.name) → n.Checked
  fed : ∀ n ∈ g.nodes, names n.name → (∀ s ∈ supplied, s.1.node ≠ n.name) → g.Fed n
  closed : ∀ n ∈ g.nodes, names n.name → (∀ s ∈ supplied, s.1.node ≠ n.name) →
    ∀ p ∈ n.inputs, ∀ origin, g.resolve? (n.portRef p) = some origin → names origin.node
  suppliedTyped : ∀ s ∈ supplied, g.HasOutput s.1 s.2.dataType
  cellsTyped : ∀ n ∈ g.nodes, names n.name → (∀ s ∈ supplied, s.1.node ≠ n.name) →
    ∀ p ∈ n.inputs, g.resolve? (n.portRef p) = none →
      (cells (n.portRef p)).dataType = p.dataType

namespace EntryContext

/-- The word is the value of an input, and a scalar of its type. -/
def InputHas (g : Graph) (supplied : List (PortRef × Value)) (cells : PortRef → Value)
    (n : Node) (p : Port) (w : Word) : Prop :=
  (∀ origin, g.resolve? (n.portRef p) = some origin → g.HasValue supplied cells origin w) ∧
    (g.resolve? (n.portRef p) = none → w = (cells (n.portRef p)).word) ∧
    ∃ native, p.dataType.native = some native ∧ w.IsScalar native

theorem InputHas.scalars {g : Graph} {supplied : List (PortRef × Value)} {cells : PortRef → Value}
    {n : Node} {words : List Word}
    (h : List.Forall₂ (InputHas g supplied cells n) n.inputs words) {inputs : List Ty}
    (hinputs : n.portTypes .input = .ok inputs) : Scalars inputs words := by
  refine forall₂_trans (forall₂_of_mapM_eq_ok hinputs) h ?_
  rintro p ty w hty ⟨-, -, native, hnative, hscalar⟩
  rw [nativeType_eq_ok hty] at hnative
  cases hnative
  exact hscalar

theorem InputHas.unique {g : Graph} {supplied : List (PortRef × Value)} {cells : PortRef → Value}
    {n : Node} {p : Port} {v w : Word} (hv : InputHas g supplied cells n p v)
    (hw : InputHas g supplied cells n p w) : v = w := by
  cases hresolve : g.resolve? (n.portRef p) with
  | none => rw [hv.2.1 hresolve, hw.2.1 hresolve]
  | some origin => exact (hv.1 origin hresolve).unique (hw.1 origin hresolve)

end EntryContext

theorem Node.exists_native_of_portTypes {n : Node} {inputs : List Ty}
    (h : n.portTypes .input = .ok inputs) {p : Port} (hp : p ∈ n.inputs) :
    ∃ native, p.dataType.native = some native := by
  obtain ⟨k, hk⟩ := List.getElem?_of_mem (show p ∈ n.ports .input from hp)
  obtain ⟨ty, -, hty⟩ := exists_of_forall₂ (forall₂_of_mapM_eq_ok h).flip hk
  exact ⟨ty, nativeType_eq_ok hty⟩

theorem Scalars.toBytes {types : List Ty} {words : List Word} (h : Scalars types words) :
    ∀ w ∈ words, w.toBytes.isSome := by
  intro w hw
  obtain ⟨k, hk⟩ := List.getElem?_of_mem hw
  obtain ⟨ty, -, hscalar⟩ := exists_of_forall₂ h hk
  exact hscalar.2

namespace Node.Checked

variable {n : Node}

/-- On values of its inputs a checked node's function makes what its kind says. -/
theorem results?_eq (h : n.Checked) {inputs : List Ty} (hinputs : n.portTypes .input = .ok inputs)
    {args : List Word} (hargs : Scalars inputs args) :
    n.results? args = n.kind.computation.eval? args := by
  obtain ⟨f, ⟨id, name, inputs', outputs, hinputs', houtputs, hfunction⟩, htyped⟩ := h
  rw [hinputs] at hinputs'
  cases hinputs'
  rw [results?_of_function hinputs houtputs hfunction, results?_eq_eval? hfunction htyped hargs]

/-- Code that ends gives results on all values. -/
theorem eval?_isSome (h : n.Checked) (hends : n.OwnCodeEnds) {inputs : List Ty}
    (hinputs : n.portTypes .input = .ok inputs) {args : List Word} (hargs : Scalars inputs args) :
    (n.kind.computation.eval? args).isSome := by
  obtain ⟨f, ⟨id, name, inputs', outputs, hinputs', -, hfunction⟩, htyped⟩ := h
  rw [hinputs] at hinputs'
  cases hinputs'
  exact Node.eval?_isSome hfunction hinputs htyped hends hargs

end Node.Checked

namespace Graph

/-- The node's computation has results on the values of its inputs, as far as these have any. -/
def Ends (g : Graph) (supplied : List (PortRef × Value)) (cells : PortRef → Value) (n : Node) :
    Prop :=
  ∀ args, List.Forall₂ (EntryContext.InputHas g supplied cells n) n.inputs args →
    (n.kind.computation.eval? args).isSome

/-- The inputs of the node have values, on which its computation has results. -/
def Evaluates (g : Graph) (supplied : List (PortRef × Value)) (cells : PortRef → Value)
    (n : Node) : Prop :=
  ∃ args, List.Forall₂ (EntryContext.InputHas g supplied cells n) n.inputs args ∧
    (n.kind.computation.eval? args).isSome

end Graph

namespace Graph

variable {g : Graph} {supplied : List (PortRef × Value)} {cells : PortRef → Value}
  {names : String → Prop} {n : Node} {port : PortRef} {w : Word}

theorem port_of_outputIndex? (hnode : g.node? port.node = some n) {k : Nat}
    (hindex : n.outputIndex? port.port = some k) :
    ∃ p, n.outputs[k]? = some p ∧ g.port port .output = .ok p := by
  obtain ⟨hlt, -⟩ := List.findIdx?_eq_some_iff_getElem.1 hindex
  refine ⟨n.outputs[k], List.getElem?_eq_getElem hlt, port_eq_ok_iff.2 ⟨n, hnode, ?_⟩⟩
  rw [Node.port?, show n.ports .output = n.outputs from rfl,
    List.find?_eq_bind_findIdx?_getElem?]
  rw [Node.outputIndex?] at hindex
  rw [hindex]
  exact List.getElem?_eq_getElem hlt

theorem Evaluates.ends (h : g.Evaluates supplied cells n) : g.Ends supplied cells n := by
  obtain ⟨args, hargs, hresults⟩ := h
  intro args' hargs'
  have hsame : args = args' :=
    List.right_unique_forall₂' (fun _ _ _ hv hw => hv.unique hw) hargs hargs'
  exact hsame ▸ hresults

/-- Code that ends on all values does so on those of the inputs. -/
theorem ends_of_checked (hchecked : n.Checked) (hends : n.OwnCodeEnds) :
    g.Ends supplied cells n := by
  intro args hargs
  have ⟨f, ⟨id, name, inputs, outputs, hinputs, _⟩, _⟩ := hchecked
  exact hchecked.eval?_isSome hends hinputs (EntryContext.InputHas.scalars hargs hinputs)

theorem SoundAmong.inputHas (h : g.SoundAmong supplied cells names) (hn : n ∈ g.nodes)
    (hname : names n.name) (hfree : ∀ s ∈ supplied, s.1.node ≠ n.name) {p : Port}
    (hp : p ∈ n.inputs) {native : Ty} (hnative : p.dataType.native = some native)
    (horigins : ∀ origin, g.resolve? (n.portRef p) = some origin →
      g.HasScalar supplied cells origin w)
    (hcell : g.resolve? (n.portRef p) = none → w = (cells (n.portRef p)).word) :
    EntryContext.InputHas g supplied cells n p w := by
  refine ⟨fun origin horigin => (horigins origin horigin).1, hcell, native, hnative, ?_⟩
  cases hresolve : g.resolve? (n.portRef p) with
  | none =>
      have htype := h.cellsTyped n hn hname hfree p hp hresolve
      rw [hcell hresolve]
      exact Value.isScalar_word _ (htype.symm ▸ hnative)
  | some origin =>
      obtain ⟨-, ty, native', houtput, hnative', hscalar⟩ := horigins origin hresolve
      rw [houtput.unique (h.fed n hn hname hfree p hp origin hresolve), hnative] at hnative'
      cases hnative'
      exact hscalar

/-- Among sound nodes the word that an output carries is its value, and a scalar of its type. -/
theorem SoundAmong.hasScalar (h : g.SoundAmong supplied cells names)
    (hw : g.Carries supplied cells port w) (hname : names port.node) :
    g.HasScalar supplied cells port w := by
  induction hw with
  | @supplied port v hlookup =>
      obtain ⟨before, after, hsplit, -⟩ := List.lookup_eq_some_iff.1 hlookup
      have hmem : (port, v) ∈ supplied := by simp [hsplit]
      exact ⟨.supplied hlookup, v.dataType, v.word.ty, h.suppliedTyped _ hmem, v.native_dataType,
        v.isScalar_word v.native_dataType⟩
  | @computed port n args results k w hfree hnode hlength _ hcells hresults hindex hw ih =>
      obtain ⟨hn, hsame⟩ := node?_eq_some hnode
      rw [← hsame] at hname
      have hfree' : ∀ s ∈ supplied, s.1.node ≠ n.name := hsame.symm ▸ hfree
      have hchecked := h.checked n hn hname hfree'
      have ⟨f, ⟨id, name, inputs, outputs, hinputs, houtputs, _⟩, _⟩ := hchecked
      have hhave : List.Forall₂ (EntryContext.InputHas g supplied cells n) n.inputs args := by
        refine List.forall₂_iff_zip.2 ⟨hlength, ?_⟩
        intro p x hx
        have hp : p ∈ n.inputs := (List.of_mem_zip hx).1
        obtain ⟨native, hnative⟩ := Node.exists_native_of_portTypes hinputs hp
        exact h.inputHas hn hname hfree' hp hnative
          (fun origin horigin => ih p x hx origin horigin (h.closed n hn hname hfree' p hp origin
            horigin)) (hcells p x hx)
      have hargs := EntryContext.InputHas.scalars hhave hinputs
      have heval := (hchecked.results?_eq hinputs hargs).symm.trans hresults
      obtain ⟨outputs', houtputs', hscalars⟩ := Node.results?_scalars hargs.toBytes hresults
      rw [houtputs] at houtputs'
      cases houtputs'
      obtain ⟨p, hp, hport⟩ := port_of_outputIndex? hnode hindex
      rcases hscalars.getElem? k with ⟨-, hnone⟩ | ⟨ty, x, hty, hx, hscalar⟩
      · rw [hw] at hnone
        contradiction
      · rw [hw] at hx
        cases hx
        obtain ⟨q, hq, hnative⟩ := exists_of_forall₂ (forall₂_of_mapM_eq_ok houtputs) hty
        rw [show (n.ports .output)[k]? = some p from hp] at hq
        cases hq
        obtain ⟨hlength', hmeans⟩ := List.forall₂_iff_zip.1 hhave
        exact ⟨.computed hfree hnode hlength (fun q x hx => (hmeans hx).1)
          (fun q x hx => (hmeans hx).2.1) heval hindex hw,
          p.dataType, ty, ⟨p, hport, rfl⟩, nativeType_eq_ok hnative, hscalar⟩

/-- The words that are passed for the inputs of a sound node are their values. -/
theorem SoundAmong.inputsHave (h : g.SoundAmong supplied cells names) (hn : n ∈ g.nodes)
    (hname : names n.name) (hfree : ∀ s ∈ supplied, s.1.node ≠ n.name) {words : List Word}
    (hwords : List.Forall₂ (EntryContext.InputCarries g supplied cells n) n.inputs words) :
    List.Forall₂ (EntryContext.InputHas g supplied cells n) n.inputs words := by
  obtain ⟨f, ⟨id, name, inputs, outputs, hinputs, -⟩, -⟩ := h.checked n hn hname hfree
  obtain ⟨hlength, hcarries⟩ := List.forall₂_iff_zip.1 hwords
  refine List.forall₂_iff_zip.2 ⟨hlength, ?_⟩
  intro p x hx
  have hp : p ∈ n.inputs := (List.of_mem_zip hx).1
  obtain ⟨native, hnative⟩ := Node.exists_native_of_portTypes hinputs hp
  exact h.inputHas hn hname hfree hp hnative
    (fun origin horigin => h.hasScalar ((hcarries hx).1 origin horigin)
      (h.closed n hn hname hfree p hp origin horigin)) (hcarries hx).2

/-- On the values of the inputs of a sound node its function makes what its kind says. -/
theorem SoundAmong.results?_eq (h : g.SoundAmong supplied cells names) (hn : n ∈ g.nodes)
    (hname : names n.name) (hfree : ∀ s ∈ supplied, s.1.node ≠ n.name) {words : List Word}
    (hwords : List.Forall₂ (EntryContext.InputHas g supplied cells n) n.inputs words) :
    n.results? words = n.kind.computation.eval? words := by
  have hchecked := h.checked n hn hname hfree
  have ⟨f, ⟨id, name, inputs, outputs, hinputs, _⟩, _⟩ := hchecked
  exact hchecked.results?_eq hinputs (EntryContext.InputHas.scalars hwords hinputs)

/-- The function of a sound node does not trap if its computation has results. -/
theorem SoundAmong.not_sticks (h : g.SoundAmong supplied cells names) (hn : n ∈ g.nodes)
    (hname : names n.name) (hfree : ∀ s ∈ supplied, s.1.node ≠ n.name)
    (hends : g.Ends supplied cells n) : ¬ g.Sticks supplied cells n := by
  rintro ⟨words, hwords, hnone⟩
  have hhave := h.inputsHave hn hname hfree hwords
  have hresults := hends words hhave
  rw [← h.results?_eq hn hname hfree hhave, hnone] at hresults
  contradiction

/-- If the function of a sound node ends, then its computation has results. -/
theorem SoundAmong.evaluates (h : g.SoundAmong supplied cells names) (hn : n ∈ g.nodes)
    (hname : names n.name) (hfree : ∀ s ∈ supplied, s.1.node ≠ n.name)
    (hproceeds : g.Proceeds supplied cells n) : g.Evaluates supplied cells n := by
  obtain ⟨words, results, hwords, hresults⟩ := hproceeds
  have hhave := h.inputsHave hn hname hfree hwords
  refine ⟨words, hhave, ?_⟩
  rw [← h.results?_eq hn hname hfree hhave, hresults]
  rfl

end Graph

end Dataflow
