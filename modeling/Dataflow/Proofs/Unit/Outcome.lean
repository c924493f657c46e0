import Dataflow.Proofs.Unit.Emitted

/-!
# What becomes of a planned unit

Once every computed node of a plan has a function, the entry function can only fail in one way:
a node is due that reads from a node which has not had its turn, and generation ends with a data
cycle through it. `EntryContext.generate_outcome` tells the two outcomes apart by the order.
-/

namespace Dataflow

open Ir Generation Relation

/-! ## Known values -/

/-- The values at hand are those of the outputs of these nodes. -/
def EntryDraft.Knows (d : EntryDraft) (nodes : List Node) : Prop :=
  ∀ ref, ref ∈ d.known ↔ ∃ n ∈ nodes, ∃ p ∈ n.outputs, ref = n.portRef p

theorem EntryDraft.exists_value_iff {d : EntryDraft} {ref : PortRef} :
    (∃ v, d.values.lookup ref = some v) ↔ ref ∈ d.known := by
  rw [← Option.isSome_iff_exists, List.lookup_isSome_iff, known, List.mem_map]
  constructor
  · rintro ⟨pair, hpair, href⟩
    exact ⟨pair, hpair, (beq_iff_eq.1 href).symm⟩
  · rintro ⟨pair, hpair, rfl⟩
    exact ⟨pair, hpair, BEq.rfl⟩

variable {g : Graph} {r : UnitRequest} {d d' : EntryDraft} {nodes : List Node} {n : Node}

/-- An output of the graph belongs to one of some nodes when its node does. -/
theorem Graph.HasOutput.node_mem_iff (hg : g.WellFormed) (hnodes : ∀ n ∈ nodes, n ∈ g.nodes)
    {ref : PortRef} {ty : DataType} (href : g.HasOutput ref ty) :
    ref.node ∈ nodes.map Node.name ↔ ∃ n ∈ nodes, ∃ p ∈ n.outputs, ref = n.portRef p := by
  constructor
  · intro hmem
    obtain ⟨n, hn, hname⟩ := List.mem_map.1 hmem
    obtain ⟨p, hp, -⟩ := href
    obtain ⟨m, hm, hport⟩ := Graph.port_eq_ok_iff.1 hp
    obtain ⟨hmem', hname'⟩ := Graph.node?_eq_some hm
    obtain rfl := Graph.eq_of_name_eq hg.names_nodup (hnodes n hn) hmem' (hname.trans hname'.symm)
    obtain ⟨hpmem, hid⟩ := Node.port?_eq_some hport
    refine ⟨n, hn, p, hpmem, ?_⟩
    rw [Node.portRef, hname, hid]
  · rintro ⟨n, hn, p, -, rfl⟩
    exact List.mem_map_of_mem hn

/-- An output is at hand once its node has had its turn. -/
theorem EntryDraft.Knows.mem_iff (h : d.Knows nodes) (hg : g.WellFormed)
    (hnodes : ∀ n ∈ nodes, n ∈ g.nodes) {ref : PortRef} {ty : DataType}
    (href : g.HasOutput ref ty) : ref ∈ d.known ↔ ref.node ∈ nodes.map Node.name := by
  rw [h, href.node_mem_iff hg hnodes]

theorem EntryDraft.Knows.append (h : d.Knows nodes)
    (hknown : d'.known = (n.outputs.map n.portRef).reverse ++ d.known) :
    d'.Knows (nodes ++ [n]) := by
  intro ref
  rw [hknown, List.mem_append, List.mem_reverse, List.mem_map, h]
  constructor
  · rintro (⟨p, hp, rfl⟩ | ⟨m, hm, hp⟩)
    · exact ⟨n, by simp, p, hp, rfl⟩
    · exact ⟨m, List.mem_append_left _ hm, hp⟩
  · rintro ⟨m, hm, p, hp, rfl⟩
    rcases List.mem_append.1 hm with hm | hm
    · exact .inr ⟨m, hm, p, hp, rfl⟩
    · rw [List.mem_singleton.1 hm] at hp ⊢
      exact .inl ⟨p, hp, rfl⟩

/-! ## Places and sources of a plan -/

namespace UnitPlan

variable {plan : UnitPlan}

/-- Each output of a bound node has a place in the input record. -/
theorem Parts.exists_slot (hg : g.WellFormed) (h : plan.Parts g r)
    (hn : n ∈ g.nodes) (hbinds : r.Binds n.name) {p : Port} (hp : p ∈ n.outputs) :
    ∃ native slot offset, p.dataType.native = some native ∧
      plan.bindings.slot? (n.portRef p) = some slot ∧
      plan.inputLayout.offset? slot = some offset := by
  have hoffers := h.offers hg
  have hdesignated := hoffers.complete n hn hbinds p hp
  obtain ⟨⟨ty, houtput, hhandle⟩, -⟩ := hoffers.designated _ hdesignated
  have hty : ty = p.dataType := houtput.unique
    ⟨p, hg.port_of_mem hn (show p ∈ n.ports .output from hp), rfl⟩
  obtain ⟨native, hnative⟩ := DataType.exists_native_iff.2 (hty ▸ hhandle)
  obtain ⟨slot, hslot⟩ : ∃ slot, plan.bindings.slot? (n.portRef p) = some slot := by
    rw [← Option.isSome_iff_exists, Bindings.slot?_isSome_iff, h.lists.ports_eq]
    exact hdesignated
  obtain ⟨offset, hoffset⟩ : ∃ offset, plan.inputLayout.offset? slot = some offset := by
    have hlt := (List.findIdx?_eq_some_iff_getElem.1 hslot).1
    rw [← RecordLayout.length_fields h.inputLayout] at hlt
    exact ⟨_, by rw [RecordLayout.offset?, List.getElem?_eq_getElem hlt]; rfl⟩
  exact ⟨native, slot, offset, hnative, hslot, hoffset⟩

/-- What a requested output leads to is an output of a node of the plan. -/
theorem Parts.exists_source (hg : g.WellFormed) (h : plan.Parts g r) {typed : TypedPort}
    (htyped : typed ∈ plan.outputs) :
    ∃ n ∈ plan.order, ∃ p ∈ n.outputs, typed.1 = n.portRef p := by
  obtain ⟨port, hport, hresolve⟩ := exists_mem_of_forall₂ (mapM_eq_ok_iff.1 h.outputs) htyped
  obtain ⟨houtput, -, hsource⟩ := resolveOutput_eq_ok_iff.1 hresolve
  obtain ⟨ty, houtput'⟩ := hsource.hasOutput hg houtput
  rw [← houtput'.node_mem_iff hg (evaluationOrder_eq_ok h.order), h.mem_order_iff hg]
  exact ⟨port, hport, typed.1, hsource, .refl⟩

end UnitPlan

/-! ## Inputs that are read -/

namespace Graph

theorem HasOrigin.exists_input (hg : g.WellFormed) {target source : PortRef}
    (h : g.HasOrigin target source) :
    ∃ n ∈ g.nodes, ∃ p ∈ n.inputs, target = n.portRef p := by
  obtain ⟨-, origin, hlink, -⟩ := h
  obtain ⟨l, hl, rfl, -⟩ := linkOrigin?_eq_some hlink
  obtain ⟨-, sink, -, hsink, -⟩ := (hg.links_wellFormed l hl).typed
  obtain ⟨n, hn, hport⟩ := port_eq_ok_iff.1 hsink
  obtain ⟨hmem, hname⟩ := node?_eq_some hn
  obtain ⟨hpmem, hid⟩ := Node.port?_eq_some hport
  refine ⟨n, hmem, sink, hpmem, ?_⟩
  rw [Node.portRef, hname, hid]

theorem reads_iff (hg : g.WellFormed) (hn : n ∈ g.nodes) (hbinds : ¬ r.Binds n.name)
    {m : String} : g.Reads r n.name m ↔
      ∃ p ∈ n.inputs, ∃ source, g.HasOrigin (n.portRef p) source ∧ source.node = m := by
  constructor
  · rintro ⟨-, target, source, horigin, hnode, hm⟩
    obtain ⟨k, hk, p, hp, rfl⟩ := horigin.exists_input hg
    obtain rfl := eq_of_name_eq hg.names_nodup hk hn hnode
    exact ⟨p, hp, source, horigin, hm⟩
  · rintro ⟨p, -, source, horigin, hm⟩
    exact ⟨hbinds, _, source, horigin, rfl, hm⟩

end Graph

namespace EntryContext

variable {c : EntryContext} {t t' : SymbolTable} {ports : List Port} {done : List Node}

/-- All that the entry function of a plan is made from is there. -/
structure Prepared (c : EntryContext) (g : Graph) (r : UnitRequest) : Prop where
  wellFormed : g.WellFormed
  index_eq : c.index = Index.build g
  storage_eq : c.storage = StorageLayout.build g (Index.build g)
  parts : c.plan.Parts g r
  emits : ∀ n ∈ c.plan.called, n.Emits
  functions : ∀ n ∈ c.plan.called, ∃ f, c.functions.lookup n.name = some f

/-- The error that ends generation at a node which reads too early. -/
def cycleAt (c : EntryContext) (n : Node) : UnitError := .dataCycle n.name c.plan.version

/-- A node that is called: it computes, and does not pass on what it gets. -/
structure Calls (c : EntryContext) (g : Graph) (n : Node) : Prop where
  called : n ∈ c.plan.called
  mem : n ∈ g.nodes
  computes : n.isReroute = false

/-! ## Values at hand after a turn -/

theorem known_of_loadBound (h : c.loadBound n d ports = .ok d') :
    d'.known = (ports.map n.portRef).reverse ++ d.known := by
  induction ports generalizing d with
  | nil =>
      cases h
      rfl
  | cons p ports ih =>
      obtain ⟨slot, ty, offset, -, -, -, h₁⟩ := loadBound_cons_eq_ok h
      rw [ih h₁]
      change _ ++ (n.portRef p :: d.known) = _
      simp

theorem known_of_arguments {vs : List Var}
    (h : (c.arguments n d ports).run t = (.ok (vs, d'), t')) : d'.known = d.known := by
  induction ports generalizing d t vs with
  | nil =>
      cases h
      rfl
  | cons p ports ih =>
      obtain ⟨v, rest, d₁, t₁, hfirst, hrest, rfl⟩ := arguments_cons_eq_ok h
      rw [ih hrest]
      obtain ⟨ty, -, ⟨_, _, _, rfl, _⟩ | ⟨_, _, _, _, _, _, rfl⟩⟩ := argument_eq_ok hfirst
      · rfl
      · rfl

theorem known_loadResults_eq (n : Node) (d : EntryDraft) (slot : Nat) {types : List Ty}
    (h : ports.length = types.length) :
    (loadResults n d slot ports types).known = (ports.map n.portRef).reverse ++ d.known := by
  induction ports generalizing d slot types with
  | nil => simp [loadResults]
  | cons p ports ih =>
      cases types with
      | nil => contradiction
      | cons ty types =>
          rw [loadResults, ih _ _ (by simpa using h)]
          change _ ++ (n.portRef p :: d.known) = _
          simp

theorem known_of_call (h : (c.call n d).run t = (.ok d', t')) :
    d'.known = (n.outputs.map n.portRef).reverse ++ d.known := by
  obtain ⟨args, d₁, types, f, hargs, htypes, -, rfl⟩ := call_eq_ok h
  have hlength := congrArg List.length (Node.portTypes_eq_ok_iff.1 htypes)
  rw [List.length_map, List.length_map] at hlength
  change n.outputs.length = types.length at hlength
  rw [callWith, known_loadResults_eq n _ _ hlength]
  change _ ++ (outputSlots d₁ types).2.known = _
  rw [known_outputSlots, known_of_arguments hargs]

/-! ## Arguments -/

theorem argument_of_known (hc : c.Prepared g r) (hn : c.Calls g n) {p : Port} (hp : p ∈ n.inputs)
    (ht : t.Ready c.storage) (hdone : ∀ m ∈ done, m ∈ g.nodes) (hd : d.Knows done)
    (hready : ∀ source, g.HasOrigin (n.portRef p) source → source.node ∈ done.map Node.name) :
    ∃ v d' t', (c.argument n d p).run t = (.ok (v, d'), t') ∧ d'.known = d.known := by
  have hnative := (hc.emits n hn.called).native (show p ∈ n.ports .input from hp)
  obtain ⟨ty, hty⟩ := DataType.exists_native_iff.2 hnative
  have hrun := run_ofExcept_of_ok (nativeType_eq_ok_iff.2 hty : nativeType (n.portRef p) _ = _) t
  unfold argument
  simp only
  rw [run_bind_of_ok hrun, hc.index_eq, Index.dataOrigin?_build]
  cases horigin : g.resolve? (n.portRef p) with
  | some source =>
      have hsource := Graph.resolve?_eq_some_iff.1 horigin
      obtain ⟨ty', houtput⟩ := hsource.hasOutput hc.wellFormed
      have hmem := (hd.mem_iff hc.wellFormed hdone houtput).2 (hready source hsource)
      obtain ⟨v, hv⟩ := EntryDraft.exists_value_iff.2 hmem
      simp only [hv]
      exact ⟨v, d, t, rfl, rfl⟩
  | none =>
      have hunlinked : (Index.build g).dataOrigin? (n.portRef p) = none := by
        rw [Index.dataOrigin?_build, horigin]
      obtain ⟨cell, hcell⟩ := StorageLayout.exists_cell hn.mem hn.computes hp hunlinked hnative
      rw [← hc.storage_eq] at hcell
      have hunknown : t.signature? cell.symbol = none :=
        ht.apart _ (ht.cells cell (StorageLayout.mem_of_cell? hcell).1)
      obtain ⟨known, cells, hdeclare, -⟩ := t.declareCell_of_unknown .imported hunknown
      simp only [hcell]
      rw [run_bind_of_ok (run_declareCell_of_ok hdeclare)]
      exact ⟨_, _, _, rfl, rfl⟩

theorem argument_of_unknown (hc : c.Prepared g r) (hn : c.Calls g n) {p : Port}
    (hp : p ∈ n.inputs) (hdone : ∀ m ∈ done, m ∈ g.nodes) (hd : d.Knows done) {source : PortRef}
    (hsource : g.HasOrigin (n.portRef p) source) (hlate : source.node ∉ done.map Node.name) :
    (c.argument n d p).run t = (.error (c.cycleAt n), t) := by
  have hnative := (hc.emits n hn.called).native (show p ∈ n.ports .input from hp)
  obtain ⟨ty, hty⟩ := DataType.exists_native_iff.2 hnative
  have hrun := run_ofExcept_of_ok (nativeType_eq_ok_iff.2 hty : nativeType (n.portRef p) _ = _) t
  obtain ⟨ty', houtput⟩ := hsource.hasOutput hc.wellFormed
  have hnone : d.values.lookup source = none := by
    rw [← Option.not_isSome_iff_eq_none, Option.isSome_iff_exists, EntryDraft.exists_value_iff]
    exact fun hmem => hlate ((hd.mem_iff hc.wellFormed hdone houtput).1 hmem)
  unfold argument
  simp only
  rw [run_bind_of_ok hrun, hc.index_eq, Index.dataOrigin?_build,
    Graph.resolve?_eq_some_iff.2 hsource]
  simp only [hnone]
  rfl

/-- All arguments are obtained, or one of them reads too early. -/
theorem arguments_outcome (hc : c.Prepared g r) (hn : c.Calls g n)
    (hports : ∀ p ∈ ports, p ∈ n.inputs) (ht : t.Ready c.storage)
    (hdone : ∀ m ∈ done, m ∈ g.nodes) (hd : d.Knows done) :
    (∃ vs d' t', (c.arguments n d ports).run t = (.ok (vs, d'), t') ∧ d'.known = d.known ∧
      ∀ p ∈ ports, ∀ source, g.HasOrigin (n.portRef p) source →
        source.node ∈ done.map Node.name) ∨
    (∃ t', (c.arguments n d ports).run t = (.error (c.cycleAt n), t') ∧
      ∃ p ∈ ports, ∃ source, g.HasOrigin (n.portRef p) source ∧
        source.node ∉ done.map Node.name) := by
  induction ports generalizing d t with
  | nil => exact .inl ⟨[], d, t, rfl, rfl, by simp⟩
  | cons p ports ih =>
      have hp := hports p List.mem_cons_self
      unfold arguments
      by_cases hready : ∀ source, g.HasOrigin (n.portRef p) source →
          source.node ∈ done.map Node.name
      · obtain ⟨v, d₁, t₁, hfirst, hknown⟩ := argument_of_known hc hn hp ht hdone hd hready
        have ht₁ := ht.declares (c.declares_argument n d p t)
        rw [hfirst] at ht₁
        have hd₁ : d₁.Knows done := by
          unfold EntryDraft.Knows
          rw [hknown]
          exact hd
        rw [run_bind_of_ok hfirst]
        rcases ih (fun q hq => hports q (List.mem_cons_of_mem _ hq)) ht₁ hd₁ with
          ⟨vs, d₂, t₂, hrest, hknown₂, hready'⟩ | ⟨t₂, hrest, q, hq, hlate⟩
        · refine .inl ⟨v :: vs, d₂, t₂, run_bind_of_ok hrest _, hknown₂.trans hknown, ?_⟩
          rw [List.forall_mem_cons]
          exact ⟨hready, hready'⟩
        · exact .inr ⟨t₂, run_bind_of_error hrest _, q, List.mem_cons_of_mem _ hq, hlate⟩
      · obtain ⟨source, hread⟩ := not_forall.1 hready
        obtain ⟨hsource, hlate⟩ := Classical.not_imp.1 hread
        have hfirst := argument_of_unknown (t := t) hc hn hp hdone hd hsource hlate
        exact .inr ⟨t, run_bind_of_error hfirst _, p, List.mem_cons_self, source, hsource, hlate⟩

/-! ## Nodes -/

theorem call_outcome (hc : c.Prepared g r) (hn : c.Calls g n) (ht : t.Ready c.storage)
    (hdone : ∀ m ∈ done, m ∈ g.nodes) (hd : d.Knows done) :
    (∃ d' t', (c.call n d).run t = (.ok d', t') ∧ d'.Knows (done ++ [n]) ∧
      ∀ p ∈ n.inputs, ∀ source, g.HasOrigin (n.portRef p) source →
        source.node ∈ done.map Node.name) ∨
    (∃ t', (c.call n d).run t = (.error (c.cycleAt n), t') ∧
      ∃ p ∈ n.inputs, ∃ source, g.HasOrigin (n.portRef p) source ∧
        source.node ∉ done.map Node.name) := by
  obtain ⟨inputs, outputs, -, -, houtputs, -⟩ := hc.emits n hn.called
  have htypes : n.portTypes .output = .ok outputs := Node.portTypes_eq_ok_iff.2 houtputs
  obtain ⟨f, hf⟩ := hc.functions n hn.called
  rcases arguments_outcome hc hn (fun _ hp => hp) ht hdone hd with
    ⟨vs, d₁, t₁, hargs, -, hready⟩ | ⟨t₁, hargs, hlate⟩
  · obtain ⟨d', hcall⟩ : ∃ d', (c.call n d).run t = (.ok d', t₁) := by
      unfold call
      rw [run_bind_of_ok hargs, run_bind_of_ok (run_ofExcept_of_ok htypes t₁)]
      simp only [hf]
      exact ⟨_, rfl⟩
    exact .inl ⟨d', t₁, hcall, hd.append (known_of_call hcall), hready⟩
  · exact .inr ⟨t₁, run_bind_of_error hargs _, hlate⟩

/-- The values of a bound node are always at hand. -/
theorem loadBound_of_bound (hc : c.Prepared g r) (hn : n ∈ g.nodes) (hbinds : r.Binds n.name)
    (hports : ∀ p ∈ ports, p ∈ n.outputs) : ∃ d', c.loadBound n d ports = .ok d' := by
  induction ports generalizing d with
  | nil => exact ⟨d, rfl⟩
  | cons p ports ih =>
      obtain ⟨native, slot, offset, hnative, hslot, hoffset⟩ :=
        hc.parts.exists_slot hc.wellFormed hn hbinds (hports p List.mem_cons_self)
      unfold loadBound
      simp only [hslot, nativeType_eq_ok_iff.2 hnative, hoffset, bind, Except.bind]
      exact ih fun q hq => hports q (List.mem_cons_of_mem _ hq)

theorem isReroute_of_needs (hn : n ∈ g.nodes) (h : g.Needs r n.name) :
    n.isReroute = false := by
  rw [Bool.eq_false_iff]
  intro hreroute
  exact h.not_mem_rerouteNames (List.mem_map_of_mem (List.mem_filter.2 ⟨hn, hreroute⟩))

/-- What is done for one node. -/
def turn (c : EntryContext) (n : Node) (d : EntryDraft) : Generation EntryDraft :=
  if c.plan.bindings.binds n.name then Generation.ofExcept (c.loadBound n d n.outputs)
  else c.call n d

theorem evaluate_cons (c : EntryContext) (d : EntryDraft) (n : Node) (nodes : List Node) :
    c.evaluate d (n :: nodes) = c.turn n d >>= fun d => c.evaluate d nodes := by
  unfold turn
  rw [evaluate]
  split
  · rfl
  · rfl

/-- After their turn the outputs of the nodes are at hand. -/
theorem knows_of_evaluate {done : List Node} (hd : d.Knows done)
    (h : (c.evaluate d nodes).run t = (.ok d', t')) : d'.Knows (done ++ nodes) := by
  induction nodes generalizing d done t with
  | nil =>
      cases h
      simpa using hd
  | cons n nodes ih =>
      rw [evaluate_cons] at h
      obtain ⟨d₁, t₁, hturn, h₁⟩ := run_bind_eq_ok h
      rw [List.append_cons]
      refine ih (hd.append ?_) h₁
      unfold turn at hturn
      split at hturn
      · exact known_of_loadBound (run_ofExcept_eq_ok hturn).1
      · exact known_of_call hturn

theorem turn_outcome (hc : c.Prepared g r) (hn : n ∈ c.plan.order) (ht : t.Ready c.storage)
    (hdone : ∀ m ∈ done, m ∈ g.nodes) (hd : d.Knows done) :
    (∃ d' t', (c.turn n d).run t = (.ok d', t') ∧ d'.Knows (done ++ [n]) ∧ t'.Ready c.storage ∧
      ∀ m, g.Reads r n.name m → m ∈ done.map Node.name) ∨
    (∃ t', (c.turn n d).run t = (.error (c.cycleAt n), t') ∧
      ∃ m, g.Reads r n.name m ∧ m ∉ done.map Node.name) := by
  have hmem : n ∈ g.nodes := evaluationOrder_eq_ok hc.parts.order n hn
  unfold turn
  by_cases hbinds : c.plan.bindings.binds n.name = true
  · have hbound := (hc.parts.lists.binds_iff n.name).1 hbinds
    obtain ⟨d', hload⟩ := @loadBound_of_bound g r d n c n.outputs hc hmem hbound fun _ hp => hp
    rw [if_pos hbinds, run_ofExcept_of_ok hload t]
    refine .inl ⟨d', t, rfl, hd.append (known_of_loadBound hload), ht, ?_⟩
    intro m hreads
    exact absurd hbound hreads.1
  · have hunbound : ¬ r.Binds n.name := fun h => hbinds ((hc.parts.lists.binds_iff n.name).2 h)
    have hneeded := (hc.parts.mem_order_iff hc.wellFormed).1 (List.mem_map_of_mem hn)
    have hcalls : c.Calls g n := ⟨List.mem_filter.2 ⟨hn, by simpa using hbinds⟩, hmem,
      isReroute_of_needs hmem hneeded⟩
    have hreads := @Graph.reads_iff g r n hc.wellFormed hmem hunbound
    rw [if_neg hbinds]
    have ht' := ht.declares (c.declares_call n d t)
    rcases call_outcome hc hcalls ht hdone hd with
      ⟨d', t', hcall, hknows, hready⟩ | ⟨t', hcall, p, hp, source, hsource, hlate⟩
    · rw [hcall] at ht'
      refine .inl ⟨d', t', hcall, hknows, ht', ?_⟩
      intro m hm
      obtain ⟨p, hp, source, hsource, rfl⟩ := hreads.1 hm
      exact hready p hp source hsource
    · exact .inr ⟨t', hcall, source.node, hreads.2 ⟨p, hp, source, hsource, rfl⟩, hlate⟩

/-- Every node has its turn, or one of them reads too early. -/
theorem evaluate_outcome (hc : c.Prepared g r) (hnodes : ∀ n ∈ nodes, n ∈ c.plan.order)
    (ht : t.Ready c.storage) (hdone : ∀ m ∈ done, m ∈ g.nodes) (hd : d.Knows done) :
    (∃ d' t', (c.evaluate d nodes).run t = (.ok d', t') ∧ d'.Knows (done ++ nodes) ∧
      InTurn (fun earlier n => ∀ m, g.Reads r n.name m → m ∈ earlier.map Node.name) done nodes) ∨
    (∃ before n after t', nodes = before ++ n :: after ∧
      (c.evaluate d nodes).run t = (.error (c.cycleAt n), t') ∧
      ∃ m, g.Reads r n.name m ∧ m ∉ (done ++ before).map Node.name) := by
  induction nodes generalizing d done t with
  | nil => exact .inl ⟨d, t, rfl, by simpa using hd, trivial⟩
  | cons n nodes ih =>
      have hn := hnodes n List.mem_cons_self
      rw [evaluate_cons]
      rcases turn_outcome hc hn ht hdone hd with
        ⟨d₁, t₁, hturn, hknows, ht₁, hready⟩ | ⟨t₁, hturn, hlate⟩
      · rw [run_bind_of_ok hturn]
        have hdone₁ : ∀ m ∈ done ++ [n], m ∈ g.nodes := by
          intro m hm
          rcases List.mem_append.1 hm with hm | hm
          · exact hdone m hm
          · rw [List.mem_singleton.1 hm]
            exact evaluationOrder_eq_ok hc.parts.order n hn
        rcases ih (fun m hm => hnodes m (List.mem_cons_of_mem _ hm)) ht₁ hdone₁ hknows with
          ⟨d₂, t₂, hrest, hknows₂, hturns⟩ | ⟨before, k, after, t₂, hsplit, hrest, hlate⟩
        · rw [← List.append_cons] at hknows₂
          exact .inl ⟨d₂, t₂, hrest, hknows₂, hready, hturns⟩
        · rw [← List.append_cons] at hlate
          exact .inr ⟨n :: before, k, after, t₂, by rw [hsplit]; rfl, hrest, hlate⟩
      · refine .inr ⟨[], n, nodes, t₁, rfl, run_bind_of_error hturn _, ?_⟩
        rw [List.append_nil]
        exact hlate

/-! ## The entry function -/

theorem storeOutputs_of_known {field : Nat} {outputs : List TypedPort}
    (hknown : ∀ typed ∈ outputs, typed.1 ∈ d.known)
    (hfields : field + outputs.length ≤ c.plan.outputLayout.fields.length) :
    ∃ d', c.storeOutputs d field outputs = .ok d' := by
  induction outputs generalizing d field with
  | nil => exact ⟨d, rfl⟩
  | cons typed outputs ih =>
      obtain ⟨v, hv⟩ := EntryDraft.exists_value_iff.2 (hknown typed List.mem_cons_self)
      rw [List.length_cons] at hfields
      have hlt : field < c.plan.outputLayout.fields.length := by omega
      have hoffset : c.plan.outputLayout.offset? field =
          some (c.plan.outputLayout.fields[field]).offset := by
        rw [RecordLayout.offset?, List.getElem?_eq_getElem hlt]
        rfl
      have hrest : ∀ typed ∈ outputs, typed.1 ∈
          (d.push (.store v 1 (c.plan.outputLayout.fields[field]).offset)).known :=
        fun other hother => hknown other (List.mem_cons_of_mem _ hother)
      unfold storeOutputs
      simp only [hv, hoffset]
      exact ih hrest (by omega)

/-- The entry function is made exactly when every node comes after all it reads; otherwise
generation ends with a data cycle through the first node that does not. -/
theorem generate_outcome (hc : c.Prepared g r) {name : String} (ht : t.Ready c.storage)
    (hadmits : t.Admits name entryParams) :
    (∃ f t', (c.generate name).run t = (.ok f, t') ∧
      InTurn (fun earlier n => ∀ m, g.Reads r n m → m ∈ earlier) []
        (c.plan.order.map Node.name)) ∨
    (∃ before n after t', c.plan.order.map Node.name = before ++ n :: after ∧
      (c.generate name).run t = (.error (.dataCycle n c.plan.version), t') ∧
      ∃ m, g.Reads r n m ∧ m ∉ before) := by
  obtain ⟨id, t₁, hdeclare⟩ := (SymbolTable.declareFunction_ok_iff .exported).2 hadmits
  have ht₁ := ht.declares (t.declares_declareFunction name .exported entryParams)
  rw [hdeclare] at ht₁
  have hrun := run_declareFunction_of_ok hdeclare
  have hstart : EntryDraft.start.Knows [] := by
    intro ref
    simp [EntryDraft.known, EntryDraft.start]
  unfold generate
  rcases evaluate_outcome hc (fun _ hn => hn) ht₁ (by simp) hstart with
    ⟨d, t₂, hevaluate, hknows, hturns⟩ | ⟨before, n, after, t₂, hsplit, hevaluate, m, hm, hlate⟩
  · have horder : ∀ n ∈ [] ++ c.plan.order, n ∈ g.nodes :=
      evaluationOrder_eq_ok hc.parts.order
    have hsources : ∀ typed ∈ c.plan.outputs, typed.1 ∈ d.known := by
      intro typed htyped
      rw [hknows]
      exact hc.parts.exists_source hc.wellFormed htyped
    have hfields : 0 + c.plan.outputs.length ≤ c.plan.outputLayout.fields.length := by
      have hlength := RecordLayout.length_fields hc.parts.outputLayout
      omega
    obtain ⟨d', hstore⟩ := storeOutputs_of_known hsources hfields
    refine .inl ⟨_, t₂, (run_bind_of_ok hrun _).trans ((run_bind_of_ok hevaluate _).trans
      (run_bind_of_ok (run_ofExcept_of_ok hstore t₂) _)), ?_⟩
    exact (@InTurn.map_iff String (fun earlier n => ∀ m, g.Reads r n m → m ∈ earlier) Node
      Node.name [] c.plan.order).2 hturns
  · refine .inr ⟨before.map Node.name, n.name, after.map Node.name, t₂, by simp [hsplit],
      (run_bind_of_ok hrun _).trans (run_bind_of_error hevaluate _), m, hm, hlate⟩

end EntryContext

end Dataflow
