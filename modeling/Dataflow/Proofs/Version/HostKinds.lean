import Dataflow.Proofs.Evaluator.HeldUnits
import Dataflow.Proofs.Version.Decoding

/-!
# Versions of graphs of host kinds

A host kind stands in the encoding under its bare name, and a graph input under a list that is
not delimited either, so where a fingerprint ends cannot be read off the encoding. Two graphs of
such kinds with one encoding have the same structure exactly when their fingerprints are cut off
at the same places and read in the same way. `UnmarkedName` gives two graphs of one encoding and
of different structure, of which an evaluator takes the one for the other.
-/

namespace Dataflow

open Bytes

namespace Kind

variable {k l : Kind} {x y : Bytes}

/-- A graph input, or a host kind whose fingerprint is its name. -/
def IsUnmarked : Kind → Prop
  | graphInput _ => True
  | host kind => kind.fingerprint = none
  | _ => False

def isGraphInput : Kind → Bool
  | graphInput _ => true
  | _ => false

/-- How the fingerprint is to be read, and where it ends. -/
def cut (k : Kind) : Bool × Nat := (k.isGraphInput, k.fingerprint.length)

theorem IsUnmarked.fingerprint_eq (hk : k.IsUnmarked) (hinput : k.isGraphInput = false) :
    k.fingerprint = ofText k.name := by
  cases k with
  | host kind =>
      have hnone : kind.fingerprint = none := hk
      simp [fingerprint, name, hnone]
  | graphInput outputs => contradiction
  | _ => contradiction

end Kind

/-! ## Reading with the cuts at hand -/

theorem PortSpec.selfDelimiting_encoding (role : PortRole) :
    SelfDelimiting (fun s : PortSpec => (ofText s.identifier).length < textLimit)
      (PortSpec.encoding role) := by
  rintro ⟨id, ty⟩ ⟨id', ty'⟩ x y hid hid' h
  obtain ⟨-, h₁⟩ := List.cons.inj h
  obtain ⟨htag, h₂⟩ := List.cons.inj h₁
  obtain ⟨rfl, hxy⟩ := selfDelimiting_ofSizedText hid hid' h₂
  obtain rfl := DataType.tag_injective htag
  exact ⟨rfl, hxy⟩

/-- The length of the fingerprint of a graph input tells how many outputs there are to read. -/
theorem outputs_append_inj {specs specs' : List PortSpec} {x y : Bytes}
    (hspecs : ∀ s ∈ specs, (ofText s.identifier).length < textLimit)
    (hspecs' : ∀ s ∈ specs', (ofText s.identifier).length < textLimit)
    (hlength : (specs.flatMap Kind.outputFingerprint).length =
      (specs'.flatMap Kind.outputFingerprint).length)
    (h : specs.flatMap (PortSpec.encoding .output) ++ x =
      specs'.flatMap (PortSpec.encoding .output) ++ y) : specs = specs' ∧ x = y := by
  induction specs generalizing specs' with
  | nil =>
      cases specs' with
      | nil => exact ⟨rfl, h⟩
      | cons s specs' => simp [Kind.outputFingerprint] at hlength
  | cons s specs ih =>
      cases specs' with
      | nil => simp [Kind.outputFingerprint] at hlength
      | cons s' specs' =>
          simp only [List.flatMap_cons, List.append_assoc] at h
          obtain ⟨rfl, hrest⟩ := PortSpec.selfDelimiting_encoding .output
            (hspecs s List.mem_cons_self) (hspecs' s' List.mem_cons_self) h
          simp only [List.flatMap_cons, List.length_append, Nat.add_left_cancel_iff] at hlength
          obtain ⟨rfl, hxy⟩ := ih (fun t ht => hspecs t (List.mem_cons_of_mem _ ht))
            (fun t ht => hspecs' t (List.mem_cons_of_mem _ ht)) hlength hrest
          exact ⟨rfl, hxy⟩

/-- A node of an unmarked kind with texts whose lengths are written in full. -/
structure IsUnmarkedNode (id : String × Kind) : Prop where
  name : (ofText id.1).length < textLimit
  kind : id.2.IsUnmarked
  outputs : ∀ s ∈ id.2.outputs, (ofText s.identifier).length < textLimit

namespace Kind

variable {k l : Kind} {x y : Bytes}

/-- Behind fingerprints that are cut alike, kinds known by their names can be told. -/
theorem encoding_append_inj (hk : k.IsUnmarked) (hl : l.IsUnmarked)
    (hkoutputs : ∀ s ∈ k.outputs, (ofText s.identifier).length < textLimit)
    (hloutputs : ∀ s ∈ l.outputs, (ofText s.identifier).length < textLimit)
    (hnames : k.isGraphInput = false → l.isGraphInput = false → k.name = l.name → k = l)
    (hcut : k.cut = l.cut) (h : k.encoding ++ x = l.encoding ++ y) : k = l ∧ x = y := by
  obtain ⟨hinput, hlength⟩ := Prod.mk.inj hcut
  have hprints : k.fingerprint = l.fingerprint := by
    unfold encoding at h
    simp only [List.append_assoc] at h
    exact (List.append_inj h hlength).1
  cases hgraph : k.isGraphInput with
  | false =>
      have hgraph' : l.isGraphInput = false := hinput ▸ hgraph
      rw [hk.fingerprint_eq hgraph, hl.fingerprint_eq hgraph'] at hprints
      obtain rfl := hnames hgraph hgraph' (ofText_injective hprints)
      exact ⟨rfl, List.append_cancel_left h⟩
  | true =>
      cases k with
      | graphInput specs =>
          cases l with
          | graphInput specs' =>
              have hports : specs.flatMap (PortSpec.encoding .output) ++ x =
                  specs'.flatMap (PortSpec.encoding .output) ++ y := by
                rw [encoding, encoding, hprints] at h
                simp only [inputs, outputs, List.flatMap_nil, List.append_nil,
                  List.append_assoc] at h
                exact List.append_cancel_left h
              have hsizes : (specs.flatMap outputFingerprint).length =
                  (specs'.flatMap outputFingerprint).length := by
                simp only [fingerprint, List.length_append, name,
                  Nat.add_left_cancel_iff] at hlength
                exact hlength
              obtain ⟨rfl, hxy⟩ := outputs_append_inj hkoutputs hloutputs hsizes hports
              exact ⟨rfl, hxy⟩
          | _ => rw [hgraph] at hinput; contradiction
      | _ => contradiction

end Kind

theorem identities_append_inj {ids ids' : List (String × Kind)} {x y : Bytes}
    (hids : ∀ id ∈ ids, IsUnmarkedNode id) (hids' : ∀ id ∈ ids', IsUnmarkedNode id)
    (hnames : ∀ id ∈ ids, ∀ id' ∈ ids', id.2.isGraphInput = false → id'.2.isGraphInput = false →
      id.2.name = id'.2.name → id.2 = id'.2)
    (hcuts : ids.map (fun id => id.2.cut) = ids'.map fun id => id.2.cut)
    (h : ids.flatMap encodeIdentity ++ x = ids'.flatMap encodeIdentity ++ y) :
    ids = ids' ∧ x = y := by
  induction ids generalizing ids' with
  | nil =>
      cases ids' with
      | nil => exact ⟨rfl, h⟩
      | cons id' ids' => simp at hcuts
  | cons id ids ih =>
      cases ids' with
      | nil => simp at hcuts
      | cons id' ids' =>
          obtain ⟨hcut, hcuts'⟩ := List.cons.inj hcuts
          have hid := hids id List.mem_cons_self
          have hid' := hids' id' List.mem_cons_self
          simp only [List.flatMap_cons, encodeIdentity, List.append_assoc] at h
          obtain ⟨hname, hkinds⟩ := selfDelimiting_ofSizedText hid.name hid'.name h
          obtain ⟨hkind, hrest⟩ := Kind.encoding_append_inj hid.kind hid'.kind hid.outputs
            hid'.outputs (hnames id List.mem_cons_self id' List.mem_cons_self) hcut hkinds
          obtain ⟨rfl, hxy⟩ := ih (fun j hj => hids j (List.mem_cons_of_mem _ hj))
            (fun j hj => hids' j (List.mem_cons_of_mem _ hj))
            (fun i hi j hj => hnames i (List.mem_cons_of_mem _ hi) j (List.mem_cons_of_mem _ hj))
            hcuts' hrest
          rw [Prod.ext hname hkind]
          exact ⟨rfl, hxy⟩

/-! ## Evaluators -/

namespace Evaluator

variable {e : Evaluator} {r : UnitRequest} {unit : CompiledUnit}

theorem keeps_replaceGraph {g : Graph} (h : g.version = e.version) :
    e.Keeps (e.replaceGraph g).2 := by
  have htake : e.Keeps { e with graph := g.remember } :=
    ⟨fun _ => rfl, fun _ => h, rfl, rfl, rfl, fun _ => rfl⟩
  unfold replaceGraph
  simp only
  rw [if_neg (not_not.2 (show version { e with graph := g.remember } = e.version from h))]
  split
  · exact htake
  · exact htake.trans (keeps_syncFrom _ _ _)

/-- A graph of the version that is served gets the code that is there. -/
theorem find?_replaceGraph {options : Options} {g h : Graph} (hversion : h.version = g.version)
    (hcompile : (new g options).compile r = (.ok unit, e)) :
    unit.request = r ∧ unit.request.outputs ≠ [] ∧
      unit.version = (e.replaceGraph h).2.version ∧
      (e.replaceGraph h).2.cache.find? unit.version unit.request = some unit := by
  have hnew := coherent_new g options
  obtain ⟨hchanges, hgraph, hunits⟩ := compiles_compile hnew r
  rw [hcompile] at hchanges hgraph hunits
  have he := Changes.coherent hchanges hnew
  have hsame : e.version = (new g options).version := congrArg Graph.version hgraph
  have hkeeps : e.Keeps (e.replaceGraph h).2 := keeps_replaceGraph (hversion.trans hsame.symm)
  have he' := hkeeps.coherent he
  have hmem : (((new g options).version, r), unit) ∈ (e.replaceGraph h).2.cache.units := by
    rw [hkeeps.units]
    exact hunits unit rfl
  obtain ⟨hkey, hcurrent, houtputs, -⟩ := he'.units _ hmem
  exact ⟨(Prod.mk.inj hkey).2.symm, houtputs, hcurrent, he'.find?_of_mem hmem⟩

end Evaluator

/-! ## Graphs -/

namespace Graph

variable {g h : Graph}

/-- Among the nodes of both graphs, host kinds of one name are the same kind. -/
def NamesMeanKinds (g h : Graph) : Prop :=
  ∀ m ∈ g.nodes ++ h.nodes, ∀ n ∈ g.nodes ++ h.nodes, m.kind.isGraphInput = false →
    n.kind.isGraphInput = false → m.kind.name = n.kind.name → m.kind = n.kind

theorem Reachable.isUnmarkedNode (hg : g.Reachable) (hkinds : ∀ n ∈ g.nodes, n.kind.IsUnmarked)
    (htexts : g.TextsBelow textLimit) :
    ∀ id ∈ g.nodes.map Node.identity, IsUnmarkedNode id := by
  intro id hid
  obtain ⟨n, hn, rfl⟩ := List.mem_map.1 hid
  refine ⟨htexts.nodes n hn, hkinds n hn, ?_⟩
  intro s hs
  change s ∈ n.kind.outputs at hs
  rw [← (hg.declared n hn).outputs] at hs
  obtain ⟨p, hp, rfl⟩ := List.mem_map.1 hs
  exact htexts.ports n hn .output p hp

/-- Graphs of unmarked kinds with one encoding have the same structure exactly when their
fingerprints are cut alike, but an evaluator that has compiled a request for the one serves the
other with that code in either case. -/
theorem sameStructure_iff_cuts (hg : g.Reachable) (hh : h.Reachable)
    (hgkinds : ∀ n ∈ g.nodes, n.kind.IsUnmarked) (hhkinds : ∀ n ∈ h.nodes, n.kind.IsUnmarked)
    (hnames : g.NamesMeanKinds h) (hgtexts : g.TextsBelow textLimit)
    (hhtexts : h.TextsBelow textLimit) (hencoding : g.encoding = h.encoding) :
    (g.SameStructure h ↔ g.nodes.map (fun n => n.kind.cut) = h.nodes.map fun n => n.kind.cut) ∧
      ∀ options r unit e, (Evaluator.new g options).compile r = (.ok unit, e) →
        ((e.replaceGraph h).2.compile r).1 = .ok unit := by
  have hcuts : ∀ j : Graph, (j.nodes.map Node.identity).map (fun id => id.2.cut) =
      j.nodes.map fun n => n.kind.cut := by
    intro j
    rw [List.map_map]
    rfl
  refine ⟨⟨?_, ?_⟩, ?_⟩
  · intro hsame
    rw [← hcuts g, ← hcuts h, hsame.nodes]
  · intro hcut
    rw [hg.encoding_eq, hh.encoding_eq] at hencoding
    obtain ⟨hname, hsections⟩ := selfDelimiting_ofSizedText hgtexts.name hhtexts.name hencoding
    have hnames' : ∀ id ∈ g.nodes.map Node.identity, ∀ id' ∈ h.nodes.map Node.identity,
        id.2.isGraphInput = false → id'.2.isGraphInput = false → id.2.name = id'.2.name →
        id.2 = id'.2 := by
      intro id hid id' hid'
      obtain ⟨m, hm, rfl⟩ := List.mem_map.1 hid
      obtain ⟨n, hn, rfl⟩ := List.mem_map.1 hid'
      exact hnames m (List.mem_append_left _ hm) n (List.mem_append_right _ hn)
    obtain ⟨hnodes, hlinks⟩ := identities_append_inj (hg.isUnmarkedNode hgkinds hgtexts)
      (hh.isUnmarkedNode hhkinds hhtexts) hnames' (by rw [hcuts, hcuts, hcut]) hsections
    have hsorted := Link.eq_of_flatMap_encoding (hgtexts.sortedLinks hg.wellFormed)
      (hhtexts.sortedLinks hh.wellFormed) hlinks
    exact ⟨hname, hnodes, (sortedLinks_eq_iff hg.wellFormed.targets_nodup
      hh.wellFormed.targets_nodup).1 hsorted⟩
  · intro options r unit e hcompile
    have hversion : h.version = g.version := by
      rw [hg.version_eq, hh.version_eq, hencoding]
    obtain ⟨rfl, houtputs, hcurrent, hfind⟩ := Evaluator.find?_replaceGraph hversion hcompile
    rw [hcurrent] at hfind
    obtain ⟨stats, hcached⟩ := Evaluator.compile_of_cached houtputs hfind
    rw [hcached]

end Graph

/-! ## A name that holds another node

The name of the only kind of `second` goes on, behind the name of the kind of the first node of
`first`, with all that follows there up to the name of the kind of its other node.
-/

namespace UnmarkedName

/-- A node with one output of a host kind that computes a constant. -/
def answer (name kind : String) (value : BitVec 32) : Node where
  name := name
  kind := .host ⟨kind, [], [⟨"x", .i32⟩], false, none, .constant (.i32 value)⟩
  inputs := []
  outputs := [⟨"x", .i32, none⟩]

def swallowing : String :=
  "k\x01\x03\x01\x00\x00\x00\x00\x00\x00\x00x\x01\x00\x00\x00\x00\x00\x00\x00Mm"

def first : Graph := ⟨"g", [answer "N" "k" 1, answer "M" "m" 0], [], none⟩

def second : Graph := ⟨"g", [answer "N" swallowing 2], [], none⟩

theorem reachable_first : first.Reachable := by
  have h₁ : Graph.Reachable ⟨"g", [answer "N" "k" 1], [], none⟩ :=
    .addNode (.empty _) (show (Graph.empty "g").addNode "N" (answer "N" "k" 1).kind =
      .ok (answer "N" "k" 1, _) from rfl)
  exact .addNode h₁ (show Graph.addNode _ "M" (answer "M" "m" 0).kind =
    .ok (answer "M" "m" 0, _) from rfl)

theorem reachable_second : second.Reachable :=
  .addNode (.empty _) (show (Graph.empty "g").addNode "N" (answer "N" swallowing 2).kind =
    .ok (answer "N" swallowing 2, _) from rfl)

theorem isUnmarked_first : ∀ n ∈ first.nodes, n.kind.IsUnmarked := by
  simp [first, answer, Kind.IsUnmarked]

theorem isUnmarked_second : ∀ n ∈ second.nodes, n.kind.IsUnmarked := by
  simp [second, answer, Kind.IsUnmarked]

theorem namesMeanKinds : first.NamesMeanKinds second := by
  unfold Graph.NamesMeanKinds
  decide +kernel

theorem encoding_eq : first.encoding = second.encoding := by
  simp only [Graph.encoding, first, second, List.mergeSort_nil]
  decide +kernel

theorem textsBelow_first : first.TextsBelow textLimit := by
  refine ⟨by decide, by decide, ?_⟩
  intro n hn role
  cases role with
  | input =>
      revert n
      decide
  | output =>
      revert n
      decide

theorem textsBelow_second : second.TextsBelow textLimit := by
  refine ⟨by decide, by decide, ?_⟩
  intro n hn role
  cases role with
  | input =>
      revert n
      decide
  | output =>
      revert n
      decide

theorem sameStructure_iff_cuts_unmarkedName : ¬ first.SameStructure second := by
  intro hsame
  have hcuts := (Graph.sameStructure_iff_cuts reachable_first reachable_second isUnmarked_first
    isUnmarked_second namesMeanKinds textsBelow_first textsBelow_second encoding_eq).1.1 hsame
  revert hcuts
  decide +kernel

def request : UnitRequest := ⟨[⟨"N", "x"⟩], []⟩

/-- The plan for the output of a node that needs no other. -/
def plan (g : Graph) (n : Node) : UnitPlan where
  version := g.remember.version
  outputs := [(⟨"N", "x"⟩, .i32)]
  outputLayout := ⟨[⟨.i32, 0⟩], 4, 4⟩
  bindings := ⟨[]⟩
  inputLayout := ⟨[], 0, 1⟩
  order := [n]

/-- The graph answers the request with this value, by this node. -/
inductive Answers : Graph → Node → BitVec 32 → Prop
  | first : Answers first (answer "N" "k" 1) 1
  | second : Answers second (answer "N" swallowing 2) 2

variable {g : Graph} {n : Node} {value : BitVec 32}

theorem Answers.order_eq (h : Answers g n value) :
    evaluationOrder g.remember (Index.build g.remember) [] ["N"] = .ok [n] := by
  have hedges : (Index.build g.remember).edges = [] := by
    cases h <;> rfl
  have hcontains : (Index.build g.remember).nodes = g.nodes.map Node.name := rfl
  have hnode : ∀ name, g.remember.node? name = g.node? name := fun _ => rfl
  simp only [evaluationOrder, scheduleRoots, Index.contains, hedges, Schedule.needs_nil,
    hcontains, hnode, ← Option.not_isSome]
  generalize g.remember.version = version
  cases h
  · cbv
  · cbv

theorem Answers.plan_made (h : Answers g n value) :
    UnitPlan.make g.remember (Index.build g.remember)
      (StorageLayout.build g.remember (Index.build g.remember)) request = .ok (plan g n) := by
  refine UnitPlan.make_of_parts rfl (by decide) ?_ (by rfl) ?_ (by rfl) h.order_eq
  · cases h <;> decide +kernel
  · cases h <;> decide +kernel

theorem Answers.cells_compiled (h : Answers g n value) :
    (Backend.new {}).compileGlobals (StorageLayout.build g.remember (Index.build g.remember)) =
      (.ok [], Backend.new {}) := by
  cases h <;> decide +kernel

theorem Answers.built (h : Answers g n value) : ∃ unit b,
    (Backend.new {}).build g.remember (Index.build g.remember)
      (StorageLayout.build g.remember (Index.build g.remember)) request = (.ok unit, b) ∧
    (CompiledUnit.ofGenerated unit 0).invoke [] [] = .ok [.i32 value] := by
  have hbuild : ((Backend.new {}).build g.remember (Index.build g.remember)
      (StorageLayout.build g.remember (Index.build g.remember)) request).1.map (fun unit =>
        (CompiledUnit.ofGenerated unit 0).invoke [] []) = .ok (.ok [.i32 value]) := by
    simp only [Backend.build, Backend.generate, generateUnit, h.plan_made]
    cases h <;> decide +kernel
  generalize (Backend.new {}).build g.remember (Index.build g.remember)
    (StorageLayout.build g.remember (Index.build g.remember)) request = outcome at hbuild ⊢
  obtain ⟨result, b⟩ := outcome
  cases result with
  | error err => contradiction
  | ok unit => exact ⟨unit, b, rfl, Except.ok.inj hbuild⟩

open Evaluator

theorem Answers.compiled (h : Answers g n value) : ∃ unit e,
    (new g {}).compile request = (.ok unit, e) ∧ e.graph = g.remember ∧ unit.bank = 0 ∧
      e.bank 0 = [] ∧ unit.version = e.version ∧ unit.invoke [] [] = .ok [.i32 value] := by
  obtain ⟨generated, b, hbuild, hinvoke⟩ := h.built
  obtain ⟨e, hcompile, hgraph, -, hbanks⟩ := compile_of_uninstalled (coherent_new g {}) rfl
    (by decide) (index_refresh_of_built rfl) h.cells_compiled hbuild
  refine ⟨_, e, hcompile, hgraph, rfl, ?_, ?_, hinvoke⟩
  · unfold Evaluator.bank
    rw [hbanks]
    rfl
  · rw [version, hgraph]
    exact (Backend.unit_of_build hbuild).1

/-- The two graphs have one encoding, so the code of the first one answers for the second one,
which computes something else. -/
theorem evaluate_swallowed : first.Reachable ∧ second.Reachable ∧
    (∀ n ∈ first.nodes ++ second.nodes, n.kind.IsUnmarked) ∧ first.NamesMeanKinds second ∧
    first.encoding = second.encoding ∧
    first.nodes.map Node.identity ≠ second.nodes.map Node.identity ∧
    (((new first {}).after [.compile request, .replaceGraph second]).evaluateRequest
      request []).1 = .ok [.i32 1] ∧
    ((new second {}).evaluateRequest request []).1 = .ok [.i32 2] := by
  have hversion : second.version = first.version := by
    rw [reachable_first.version_eq, reachable_second.version_eq, encoding_eq]
  refine ⟨reachable_first, reachable_second, ?_, namesMeanKinds, encoding_eq, by decide, ?_, ?_⟩
  · simp [first, second, answer, Kind.IsUnmarked]
  · obtain ⟨unit, e, hcompile, hgraph, hbank, hempty, -, hinvoke⟩ := Answers.first.compiled
    obtain ⟨hrequest, houtputs, hcurrent, hfind⟩ := find?_replaceGraph hversion hcompile
    simp only [after, List.foldl, step, hcompile]
    rw [← hrequest, evaluateRequest_of_cached houtputs hcurrent hfind, invoke_of_version hcurrent,
      hbank]
    have hkeeps : e.Keeps (e.replaceGraph second).2 :=
      keeps_replaceGraph (hversion.trans (congrArg Graph.version hgraph).symm)
    have hkeys := hkeeps.keys 0
    rw [hempty, List.map_nil, List.map_eq_nil_iff] at hkeys
    rw [hkeys]
    exact hinvoke
  · obtain ⟨unit, e, hcompile, -, hbank, hempty, hcurrent, hinvoke⟩ := Answers.second.compiled
    unfold evaluateRequest
    rw [hcompile]
    change e.invoke unit [] = _
    rw [invoke_of_version hcurrent, hbank, hempty]
    exact hinvoke

end UnmarkedName

end Dataflow
