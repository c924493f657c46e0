import Dataflow.Proofs.Backend.Acceptance
import Dataflow.Proofs.Storage.FreeInputs

/-!
# Nodes bound to their own values

A node can be bound to the values that it computes anyway. A request stays acceptable then, and
every output keeps its value, provided that the words supplied are those that the node computes:
`Graph.HasValue.bound`. Words and values are the same thing except for truth values, which are
read off any byte and supplied as 0 or 1. Computations of stock kinds only ever make these two
bytes, `Node.WellFormed.keepsTruth`; a host kind is free not to.
-/

namespace Dataflow

open Ir Relation

/-! ## Truth values -/

/-- The word of a truth value: the byte 0 or 1. -/
def Ir.Word.IsTruth (w : Word) : Prop := ∃ flag, w = .ofBool flag

/-- A value is supplied as the word it was read off, unless that is a byte other than 0 and 1. -/
theorem Value.word_of_ofWord? {ty : DataType} {w : Word} {v : Value} (h : ofWord? ty w = some v)
    (htruth : ty = .bool → w.IsTruth) : v.word = w := by
  cases ty with
  | bool =>
      obtain ⟨flag, rfl⟩ := htruth rfl
      cases flag <;> cases h <;> rfl
  | handle =>
      cases w
      all_goals cases h
  | _ =>
      cases w <;> cases h
      rfl

theorem Value.dataType_of_ofWord? {ty : DataType} {w : Word} {v : Value}
    (h : ofWord? ty w = some v) : v.dataType = ty := by
  cases ty <;> cases w <;> cases h <;> rfl

theorem Value.isTruth_word {v : Value} (h : v.dataType = .bool) : v.word.IsTruth := by
  cases v <;> cases h
  exact ⟨_, rfl⟩

/-- On truth values the computation of the node makes truth values. -/
def Node.KeepsTruth (n : Node) : Prop :=
  ∀ args results, n.kind.computation.eval? args = some results →
    (∀ p w, (p, w) ∈ n.inputs.zip args → p.dataType = .bool → w.IsTruth) →
    ∀ p w, (p, w) ∈ n.outputs.zip results → p.dataType = .bool → w.IsTruth

theorem CompareOp.isTruth_of_eval? {op : CompareOp} {ty : DataType} {x y w : Word}
    (h : op.eval? ty x y = some w) : w.IsTruth := by
  unfold CompareOp.eval? at h
  split at h
  all_goals first
    | contradiction
    | split at h
      · cases h
        exact ⟨_, rfl⟩
      · contradiction

theorem Node.WellFormed.keepsTruth {n : Node} (hn : n.WellFormed)
    (hstock : ∀ k, n.kind ≠ .host k) : n.KeepsTruth := by
  obtain ⟨name, kind, inputs, outputs⟩ := n
  intro args results heval hinputs p w hp hbool
  have hsingle : ∀ {ty word}, outputs.map Port.dataType = [ty] → results = [word] →
      ty = .bool ∧ word = w := by
    rintro ty word houtputs rfl
    obtain ⟨q, rfl, rfl⟩ := List.map_eq_singleton_iff.1 houtputs
    cases List.mem_singleton.1 hp
    exact ⟨hbool, rfl⟩
  have houtputs := hn.outputs_typed
  have hargs := hn.inputs_typed
  change outputs.map Port.dataType = kind.outputs.map PortSpec.dataType at houtputs
  change inputs.map Port.dataType = kind.inputs.map PortSpec.dataType at hargs
  change kind.computation.eval? args = some results at heval
  cases kind with
  | host k => exact absurd rfl (hstock k)
  | graphInput specs => cases args <;> cases heval
  | constant value =>
      cases args with
      | nil =>
          cases heval
          obtain ⟨htype, rfl⟩ := hsingle houtputs rfl
          cases value <;> cases htype
          exact ⟨_, rfl⟩
      | cons x args => cases heval
  | reroute ty =>
      match args, heval with
      | [x], heval =>
          cases heval
          obtain ⟨rfl, rfl⟩ := hsingle houtputs rfl
          obtain ⟨q, rfl, htype⟩ := List.map_eq_singleton_iff.1 hargs
          exact hinputs q x List.mem_cons_self htype
  | math op ty =>
      match args, heval with
      | [x, y], heval =>
          obtain ⟨word, hword, rfl⟩ := Option.map_eq_some_iff.1 heval
          obtain ⟨rfl, rfl⟩ := hsingle houtputs rfl
          rw [MathOp.eval?_bool] at hword
          contradiction
  | compare op ty =>
      match args, heval with
      | [x, y], heval =>
          obtain ⟨word, hword, rfl⟩ := Option.map_eq_some_iff.1 heval
          obtain ⟨-, rfl⟩ := hsingle houtputs rfl
          exact CompareOp.isTruth_of_eval? hword
  | select ty =>
      match args, heval with
      | [c, x, y], heval =>
          obtain ⟨taken, -, rfl⟩ := Option.map_eq_some_iff.1 heval
          obtain ⟨rfl, rfl⟩ := hsingle houtputs rfl
          obtain ⟨q, inputs, rfl, -, hargs⟩ := List.map_eq_cons_iff.1 hargs
          obtain ⟨a, inputs, rfl, ha, hargs⟩ := List.map_eq_cons_iff.1 hargs
          obtain ⟨b, rfl, hb⟩ := List.map_eq_singleton_iff.1 hargs
          cases taken with
          | true => exact hinputs a x (by simp) ha
          | false => exact hinputs b y (by simp) hb
  | clamp ty =>
      match args, heval with
      | [x, low, high], heval =>
          obtain ⟨word, hword, rfl⟩ := Option.map_eq_some_iff.1 heval
          obtain ⟨rfl, rfl⟩ := hsingle houtputs rfl
          rw [MathOp.eval?_bool] at hword
          contradiction

/-- In a list with distinct keys each of them is looked up with its value. -/
theorem lookup_of_mem {α β : Type} [BEq α] [LawfulBEq α] {xs : List (α × β)} {a : α} {b : β}
    (hnodup : (xs.map Prod.fst).Nodup) (h : (a, b) ∈ xs) : xs.lookup a = some b := by
  obtain ⟨b', hb'⟩ : ∃ b', xs.lookup a = some b' := by
    rw [← Option.isSome_iff_exists, List.lookup_isSome_iff]
    exact ⟨(a, b), h, by simp⟩
  obtain ⟨before, after, rfl, -⟩ := List.lookup_eq_some_iff.1 hb'
  have hsame := List.inj_on_of_nodup_map hnodup h (show (a, b') ∈ _ by simp) rfl
  rw [hb', (Prod.mk.inj hsame).2]

namespace Graph

variable {g : Graph} {supplied : List (PortRef × Value)} {cells : PortRef → Value} {n : Node}
  {port : PortRef} {w : Word} {outs ports : List PortRef}

/-- The word of an output that is computed stands among the results of its node. -/
theorem mem_zip_of_outputIndex? {results : List Word} {k : Nat} {p : Port}
    (hp : g.port port .output = .ok p) (hnode : g.node? port.node = some n)
    (hindex : n.outputIndex? port.port = some k) (hresult : results[k]? = some w) :
    (p, w) ∈ n.outputs.zip results := by
  obtain ⟨n', hnode', hport⟩ := port_eq_ok_iff.1 hp
  rw [hnode] at hnode'
  cases hnode'
  have hfound : n.outputs[k]? = some p := by
    rw [Node.port?, show n.ports .output = n.outputs from rfl,
      List.find?_eq_bind_findIdx?_getElem?] at hport
    rw [Node.outputIndex?] at hindex
    rw [hindex] at hport
    exact hport
  exact List.mem_of_getElem? (List.getElem?_zip_eq_some.2 ⟨hfound, hresult⟩)

/-- Nodes that read from each other only and, where they are computed, keep truth values. -/
structure TruthAmong (g : Graph) (supplied : List (PortRef × Value)) (names : String → Prop) :
    Prop where
  keeps : ∀ n ∈ g.nodes, names n.name → (∀ s ∈ supplied, s.1.node ≠ n.name) → n.KeepsTruth
  closed : ∀ n ∈ g.nodes, names n.name → (∀ s ∈ supplied, s.1.node ≠ n.name) →
    ∀ p ∈ n.inputs, ∀ origin, g.resolve? (n.portRef p) = some origin → names origin.node
  typed : ∀ s ∈ supplied, g.HasOutput s.1 s.2.dataType

theorem truthAmong_all (htruth : ∀ n ∈ g.nodes, n.KeepsTruth) :
    g.TruthAmong [] fun _ => True where
  keeps := fun n hn _ _ => htruth n hn
  closed := fun _ _ _ _ _ _ _ _ => trivial
  typed := nofun

section

variable (hg : g.WellFormed) (hreroutes : g.ReroutesTyped) {bank : Bank}
  (hcells : g.layout.Holds bank cells)

include hg hreroutes hcells

/-- An input for a truth value reads the byte 0 or 1 if all that it can read from makes them. -/
theorem isTruth_of_input (hn : n ∈ g.nodes) (hcomputes : n.name ∉ g.rerouteNames) {q : Port}
    (hq : q ∈ n.inputs) (hbool : q.dataType = .bool)
    (horigin : ∀ origin, g.resolve? (n.portRef q) = some origin →
      origin.node ∉ g.rerouteNames → g.HasOutput origin .bool → w.IsTruth)
    (hcell : g.resolve? (n.portRef q) = none → w = (cells (n.portRef q)).word) : w.IsTruth := by
  have hinput := hg.port_of_mem hn (show q ∈ n.ports .input from hq)
  cases hresolve : g.resolve? (n.portRef q) with
  | some origin =>
      obtain ⟨-, direct, -, hchain⟩ := resolve?_eq_some_iff.1 hresolve
      exact horigin origin hresolve hchain.not_reroute
        (hbool ▸ hasOutput_resolve? hg hreroutes hinput hresolve)
  | none =>
      have hfree : g.FreeInput (n.portRef q) .bool := by
        refine ⟨⟨q, hinput, hbool⟩, nofun, hcomputes, ?_⟩
        intro source horigin
        rw [resolve?_eq_some_iff.2 horigin] at hresolve
        contradiction
      rw [hcell hresolve]
      exact Value.isTruth_word (hcells.dataType_eq hg hfree)

/-- Among nodes that keep truth values, every truth value is the byte 0 or 1. -/
theorem HasValue.isTruth {names : String → Prop} (htruth : g.TruthAmong supplied names)
    (h : g.HasValue supplied cells port w) (hname : names port.node)
    (hport : port.node ∉ g.rerouteNames) (hbool : g.HasOutput port .bool) : w.IsTruth := by
  induction h with
  | @supplied port v hlookup =>
      obtain ⟨before, after, hsplit, -⟩ := List.lookup_eq_some_iff.1 hlookup
      have hmem : (port, v) ∈ supplied := by simp [hsplit]
      exact Value.isTruth_word ((htruth.typed _ hmem).unique hbool)
  | @computed port n args results k w hfree hnode _ _ hread heval hindex hresult ih =>
      obtain ⟨p, hp, htype⟩ := hbool
      obtain ⟨hn, hsame⟩ := node?_eq_some hnode
      rw [← hsame] at hname hport hfree
      refine htruth.keeps n hn hname hfree args results heval ?_ p w
        (mem_zip_of_outputIndex? hp hnode hindex hresult) htype
      intro q x hx hq
      have hinput := (List.of_mem_zip hx).1
      refine isTruth_of_input hg hreroutes hcells hn hport hinput hq ?_ (hread q x hx)
      intro origin hresolve
      exact ih q x hx origin hresolve (htruth.closed n hn hname hfree q hinput origin hresolve)

end

/-! ## A node and its own values -/

/-- Values are supplied for outputs of one node, and they are the words that it computes. -/
structure OwnValues (g : Graph) (cells : PortRef → Value) (name : String)
    (supplied : List (PortRef × Value)) : Prop where
  node : ∀ s ∈ supplied, s.1.node = name
  word : ∀ port w, port.node = name → g.HasValue [] cells port w →
    ∃ v, supplied.lookup port = some v ∧ v.word = w

/-- If a node is bound to its own values, every output keeps its value. -/
theorem HasValue.bound {name : String} (hown : g.OwnValues cells name supplied)
    (h : g.HasValue [] cells port w) : g.HasValue supplied cells port w := by
  induction h with
  | supplied hlookup => contradiction
  | @computed port n args results k w hfree hnode hlength hread hcells heval hindex hresult ih =>
      by_cases hname : port.node = name
      · obtain ⟨v, hlookup, rfl⟩ := hown.word port w hname
          (.computed hfree hnode hlength hread hcells heval hindex hresult)
        exact .supplied hlookup
      · exact .computed (fun s hs hsame => hname (hsame.symm.trans (hown.node s hs))) hnode hlength
          ih hcells heval hindex hresult

theorem Yields.bound {name : String} {v : Value} (hown : g.OwnValues cells name supplied)
    (h : g.Yields [] cells port v) : g.Yields supplied cells port v := by
  obtain ⟨source, p, w, hsource, hp, hw, hv⟩ := h
  exact ⟨source, p, w, hsource, hp, hw.bound hown, hv⟩

theorem Evaluates.bound {name : String} (hown : g.OwnValues cells name supplied)
    (h : g.Evaluates [] cells n) : g.Evaluates supplied cells n := by
  obtain ⟨args, hargs, hresults⟩ := h
  refine ⟨args, hargs.imp ?_, hresults⟩
  rintro p w ⟨horigin, hcell, hscalar⟩
  exact ⟨fun origin hresolve => (horigin origin hresolve).bound hown, hcell, hscalar⟩

theorem Yields.hasOutput {v : Value} (h : g.Yields supplied cells port v) :
    g.HasOutput port v.dataType := by
  obtain ⟨source, p, w, -, hp, -, hv⟩ := h
  exact ⟨p, hp, (Value.dataType_of_ofWord? hv).symm⟩

/-- What is computed is an output of the graph. -/
theorem HasValue.exists_output (hg : g.WellFormed) (hn : n ∈ g.nodes) (hname : port.node = n.name)
    (h : g.HasValue [] cells port w) : ∃ p ∈ n.outputs, port = n.portRef p := by
  cases h with
  | supplied hlookup => contradiction
  | computed _ hnode _ _ _ _ hindex _ =>
      obtain ⟨hm, hsame⟩ := node?_eq_some hnode
      obtain rfl := eq_of_name_eq hg.names_nodup hm hn (hsame.trans hname)
      obtain ⟨hlt, hid, -⟩ := List.findIdx?_eq_some_iff_getElem.1 hindex
      exact ⟨_, List.getElem_mem hlt, congrArg₂ PortRef.mk hname (beq_iff_eq.1 hid).symm⟩

/-- The values that a computing node yields are its own ones, unless a truth value was read off
another byte than 0 and 1. -/
theorem ownValues_of_yields (hg : g.WellFormed) (hn : n ∈ g.nodes)
    (hcomputes : n.isReroute = false)
    (htruth : ∀ p ∈ n.outputs, p.dataType = .bool → ∀ w,
      g.HasValue [] cells (n.portRef p) w → w.IsTruth) {own : List Value}
    (hyields : List.Forall₂ (g.Yields [] cells) (n.outputs.map n.portRef) own)
    (hsupplied : supplied.Perm ((n.outputs.map n.portRef).zip own)) :
    g.OwnValues cells n.name supplied := by
  have hkeys : (supplied.map Prod.fst).Perm (n.outputs.map n.portRef) := by
    have hmap := hsupplied.map Prod.fst
    rwa [List.map_fst_zip (Nat.le_of_eq hyields.length_eq)] at hmap
  have hnodup : (supplied.map Prod.fst).Nodup := by
    refine hkeys.nodup_iff.2 (List.Nodup.of_map PortRef.port ?_)
    rw [List.map_map]
    exact (hg.nodes_wellFormed n hn).outputs_nodup
  refine ⟨?_, ?_⟩
  · intro s hs
    obtain ⟨p, -, hp⟩ := List.mem_map.1 (hkeys.mem_iff.1 (List.mem_map_of_mem hs))
    rw [← hp]
    rfl
  · intro port w hname hw
    obtain ⟨p, hp, rfl⟩ := hw.exists_output hg hn hname
    obtain ⟨v, hv⟩ : ∃ v, (n.portRef p, v) ∈ supplied := by
      have hmem := hkeys.mem_iff.2 (List.mem_map_of_mem hp)
      obtain ⟨s, hs, hport⟩ := List.mem_map.1 hmem
      exact ⟨s.2, hport ▸ hs⟩
    obtain ⟨source, q, w', hsource, hq, hw', hofWord⟩ :=
      (List.forall₂_iff_zip.1 hyields).2 (hsupplied.mem_iff.1 hv)
    have hself : g.LeadsTo (n.portRef p) (n.portRef p) :=
      ⟨0, .here (hg.not_mem_rerouteNames hn hcomputes)⟩
    cases (resolveFrom?_eq_some_iff.1 hsource).unique hself
    cases hw.unique hw'
    rw [hg.port_of_mem hn (show p ∈ n.ports .output from hp)] at hq
    cases hq
    exact ⟨v, lookup_of_mem hnodup hv,
      Value.word_of_ofWord? hofWord fun hbool => htruth p hp hbool w hw⟩

/-- Where no host kind makes other bytes than 0 and 1 of truth values, no node does. -/
theorem WellFormed.keepsTruth (hg : g.WellFormed)
    (hhost : ∀ n ∈ g.nodes, ∀ k, n.kind = .host k → n.KeepsTruth) :
    ∀ n ∈ g.nodes, n.KeepsTruth := by
  intro n hn
  by_cases hkind : ∃ k, n.kind = .host k
  · obtain ⟨k, hk⟩ := hkind
    exact hhost n hn k hk
  · exact (hg.nodes_wellFormed n hn).keepsTruth fun k hk => hkind ⟨k, hk⟩

/-! ## Requests -/

theorem Reads.of_bound {a b : String} (h : g.Reads ⟨outs, ports⟩ a b) :
    g.Reads ⟨outs, []⟩ a b :=
  ⟨fun ⟨_, hport, _⟩ => List.not_mem_nil hport, h.2⟩

theorem Needs.of_bound {name : String} (h : g.Needs ⟨outs, ports⟩ name) :
    g.Needs ⟨outs, []⟩ name := by
  obtain ⟨port, hport, source, hsource, hreads⟩ := h
  exact ⟨port, hport, source, hsource,
    ReflTransGen.mono (fun _ _ hab => Reads.of_bound hab) _ _ hreads⟩

theorem Acyclic.bound (h : g.Acyclic ⟨outs, []⟩) (ports : List PortRef) :
    g.Acyclic ⟨outs, ports⟩ := fun name hneeds hcycle =>
  h name hneeds.of_bound (TransGen.mono (fun _ _ hab => Reads.of_bound hab) _ _ hcycle)

/-- A request stays acceptable when all outputs of a computing node are bound, provided that
they can be requested. -/
theorem Accepts.bound (hg : g.WellFormed) (h : g.Accepts ⟨outs, []⟩) (hn : n ∈ g.nodes)
    (hcomputes : n.isReroute = false)
    (hown : ∀ port ∈ n.outputs.map n.portRef, g.HasNativeOutput port)
    (hports : ports.Perm (n.outputs.map n.portRef)) : g.Accepts ⟨outs, ports⟩ := by
  refine {
    requested := h.requested
    outputs := h.outputs
    designated := ?_
    complete := ?_
    emits := fun m hm hneeds _ => h.emits m hm hneeds.of_bound fun ⟨_, hport, _⟩ =>
      List.not_mem_nil hport }
  · intro port hport
    have hmem := hports.mem_iff.1 hport
    obtain ⟨p, -, rfl⟩ := List.mem_map.1 hmem
    exact ⟨hown _ hmem, hg.not_mem_rerouteNames hn hcomputes⟩
  · rintro m hm ⟨port, hport, hname⟩ p hp
    obtain ⟨q, -, rfl⟩ := List.mem_map.1 (hports.mem_iff.1 hport)
    obtain rfl := eq_of_name_eq hg.names_nodup hn hm hname
    exact hports.mem_iff.2 (List.mem_map_of_mem hp)

end Graph

end Dataflow
