import Dataflow.Proofs.Index.Origins
import Mathlib.Data.List.Perm.Basic
import Mathlib.Data.String.Basic

/-!
# The structure of a graph

A graph apart from its authored values and from the order in which its links were made: its
name, the names and kinds of its nodes in order, and the origin of the link at each input.
The ports of a node follow from its kind, and links in sorted order follow from the origins.
`Graph.Reachable.version_eq` says that the token of a graph is always the digest of its
present encoding.
-/

namespace Dataflow

def Port.spec (p : Port) : PortSpec := ⟨p.identifier, p.dataType⟩

/-- What a node is in the structure of its graph. -/
def Node.identity (n : Node) : String × Kind := (n.name, n.kind)

/-- The ports of a node are those that its kind declares. -/
structure Node.Declared (n : Node) : Prop where
  inputs : n.inputs.map Port.spec = n.kind.inputs
  outputs : n.outputs.map Port.spec = n.kind.outputs

structure Graph.SameStructure (g h : Graph) : Prop where
  name : g.name = h.name
  nodes : g.nodes.map Node.identity = h.nodes.map Node.identity
  links : ∀ target, g.linkOrigin? target = h.linkOrigin? target

/-! ## What the edits do -/

namespace Graph

variable {g g' : Graph}

theorem addNode_eq_ok {name : String} {kind : Kind} {node : Node}
    (h : g.addNode name kind = .ok (node, g')) :
    Node.ofKind name kind = .ok node ∧
      g' = { g with nodes := g.nodes ++ [node], token := none } := by
  unfold addNode at h
  split at h
  · contradiction
  · cases hkind : Node.ofKind name kind with
    | error e => simp [hkind, bind, Except.bind] at h
    | ok n =>
        simp only [hkind, bind, Except.bind, pure, Except.pure, Except.ok.injEq,
          Prod.mk.injEq] at h
        obtain ⟨rfl, rfl⟩ := h
        exact ⟨rfl, rfl⟩

theorem removeNode_eq_ok {name : String} {node : Node}
    (h : g.removeNode name = .ok (node, g')) :
    g'.token = none ∧ g'.nodes = g.nodes.filter fun n => n.name != name := by
  unfold removeNode at h
  split at h
  · contradiction
  · cases h
    exact ⟨rfl, rfl⟩

theorem link_eq_ok {origin target : PortRef} {replaced : Option PortRef}
    (h : g.link origin target = .ok (replaced, g')) :
    g'.token = none ∧ g'.nodes = g.nodes := by
  unfold link at h
  cases hsource : g.port origin .output with
  | error e => simp [hsource, bind, Except.bind] at h
  | ok source =>
      cases hsink : g.port target .input with
      | error e => simp [hsource, hsink, bind, Except.bind] at h
      | ok sink =>
          simp only [hsource, hsink, bind, Except.bind, pure, Except.pure] at h
          split at h
          · contradiction
          · split at h
            · contradiction
            · cases h
              exact ⟨rfl, rfl⟩

theorem unlink_eq (g : Graph) (target : PortRef) :
    (g.unlink target).2 = g ∨
      (g.unlink target).2.token = none ∧ (g.unlink target).2.nodes = g.nodes := by
  unfold unlink
  split
  · exact Or.inl rfl
  · exact Or.inr ⟨rfl, rfl⟩

theorem setInputValue_eq_ok {ref : PortRef} {value : Value}
    (h : g.setInputValue ref value = .ok g') :
    g' = { g with
      nodes := g.nodes.map fun n =>
        if n.name = ref.node then n.setInput ref.port value else n } := by
  unfold setInputValue at h
  cases hport : g.port ref .input with
  | error e => simp [hport, bind, Except.bind] at h
  | ok port =>
      simp only [hport, bind, Except.bind, pure, Except.pure] at h
      split at h
      · contradiction
      · cases h
        rfl

end Graph

/-! ## Ports follow from kinds -/

namespace Node

theorem declared_of_ofKind {name : String} {kind : Kind} {n : Node}
    (h : Node.ofKind name kind = .ok n) : n.Declared := by
  unfold Node.ofKind at h
  split at h
  · contradiction
  · split at h
    · contradiction
    · cases h
      have hspec : ∀ role, Port.spec ∘ Port.ofSpec role = id := fun _ => rfl
      refine ⟨?_, ?_⟩
      · rw [List.map_map, hspec, List.map_id]
      · rw [List.map_map, hspec, List.map_id]

theorem specs_setInput (n : Node) (identifier : String) (value : Value) :
    (n.setInput identifier value).inputs.map Port.spec = n.inputs.map Port.spec := by
  rw [setInput, List.map_map]
  apply List.map_congr_left
  intro p _
  by_cases h : p.identifier = identifier <;> simp [h, Port.spec]

theorem Declared.setInput {n : Node} (hn : n.Declared) (identifier : String) (value : Value) :
    (n.setInput identifier value).Declared :=
  ⟨(n.specs_setInput identifier value).trans hn.inputs, hn.outputs⟩

end Node

theorem Graph.Reachable.declared {g : Graph} (h : g.Reachable) : ∀ n ∈ g.nodes, n.Declared := by
  induction h with
  | empty name => simp [Graph.empty]
  | addNode _ hstep ih =>
      obtain ⟨hkind, rfl⟩ := addNode_eq_ok hstep
      intro n hn
      rcases List.mem_append.1 hn with hn | hn
      · exact ih n hn
      · rw [List.mem_singleton.1 hn]
        exact Node.declared_of_ofKind hkind
  | removeNode _ hstep ih =>
      intro n hn
      rw [(removeNode_eq_ok hstep).2] at hn
      exact ih n (List.mem_of_mem_filter hn)
  | link _ hstep ih =>
      rw [(link_eq_ok hstep).2]
      exact ih
  | @unlink g target _ ih =>
      rcases unlink_eq g target with hsame | ⟨-, hnodes⟩
      · rw [hsame]
        exact ih
      · rw [hnodes]
        exact ih
  | setInputValue _ hstep ih =>
      rw [setInputValue_eq_ok hstep]
      intro n hn
      obtain ⟨m, hm, rfl⟩ := List.mem_map.1 hn
      split
      · exact (ih m hm).setInput _ _
      · exact ih m hm
  | remember _ ih => exact ih

/-! ## Encodings follow from structure -/

def PortSpec.encoding (role : PortRole) (s : PortSpec) : Bytes :=
  role.tag :: s.dataType.tag :: Bytes.ofSizedText s.identifier

/-- What a kind contributes to the encoding of each of its nodes. -/
def Kind.encoding (k : Kind) : Bytes :=
  k.fingerprint ++ k.inputs.flatMap (PortSpec.encoding .input)
    ++ k.outputs.flatMap (PortSpec.encoding .output)

/-- The encoding of a node from its name and its kind. -/
def encodeIdentity (id : String × Kind) : Bytes := Bytes.ofSizedText id.1 ++ id.2.encoding

namespace Node

theorem flatMap_encoding (role : PortRole) (ports : List Port) :
    ports.flatMap (Port.encoding role) =
      (ports.map Port.spec).flatMap (PortSpec.encoding role) := by
  rw [List.flatMap_map]
  rfl

theorem Declared.encoding_eq {n : Node} (hn : n.Declared) :
    n.encoding = encodeIdentity n.identity := by
  unfold encoding encodeIdentity Kind.encoding
  rw [flatMap_encoding, flatMap_encoding, hn.inputs, hn.outputs]
  simp only [identity, List.append_assoc]

theorem encoding_setInput (n : Node) (identifier : String) (value : Value) :
    (n.setInput identifier value).encoding = n.encoding := by
  unfold encoding
  rw [flatMap_encoding, specs_setInput, ← flatMap_encoding]
  rfl

end Node

namespace Graph

variable {g h : Graph}

theorem encoding_setInputValue {ref : PortRef} {value : Value}
    (hset : g.setInputValue ref value = .ok h) : h.encoding = g.encoding := by
  rw [setInputValue_eq_ok hset]
  unfold encoding
  rw [List.flatMap_map]
  congr 2
  apply List.flatMap_congr
  intro n _
  split
  · exact n.encoding_setInput _ _
  · rfl

/-- The token that a graph holds is never outdated: what changes the encoding drops it. -/
theorem Reachable.token_eq (hg : g.Reachable) :
    ∀ token, g.token = some token → token = g.computeVersion := by
  induction hg with
  | empty name => simp [Graph.empty]
  | addNode _ hstep =>
      obtain ⟨-, rfl⟩ := addNode_eq_ok hstep
      simp
  | removeNode _ hstep => simp [(removeNode_eq_ok hstep).1]
  | link _ hstep => simp [(link_eq_ok hstep).1]
  | @unlink g target _ ih =>
      rcases unlink_eq g target with hsame | ⟨htoken, -⟩
      · rw [hsame]
        exact ih
      · simp [htoken]
  | @setInputValue g g' ref value _ hstep ih =>
      have htoken : g'.token = g.token := by rw [setInputValue_eq_ok hstep]
      intro token h
      rw [htoken] at h
      rw [ih token h, computeVersion, computeVersion, encoding_setInputValue hstep]
  | @remember g _ ih =>
      intro token h
      cases h
      cases htoken : g.token with
      | none => rw [version, htoken]; rfl
      | some known =>
          rw [version, htoken]
          exact ih known htoken

theorem Reachable.version_eq (hg : g.Reachable) : g.version = .ofStream g.encoding := by
  unfold version
  cases htoken : g.token with
  | none => rfl
  | some token => exact hg.token_eq token htoken

end Graph

/-! ## Links in order -/

namespace PortRef

theorem le_iff {p q : PortRef} :
    p.le q = true ↔ p.node < q.node ∨ p.node = q.node ∧ p.port ≤ q.port := by
  simp [le]

theorem le_trans {p q r : PortRef} (hpq : p.le q = true) (hqr : q.le r = true) :
    p.le r = true := by
  rw [le_iff] at hpq hqr ⊢
  rcases hpq with hpq | ⟨hpq, hport⟩
  · rcases hqr with hqr | ⟨hqr, -⟩
    · exact Or.inl (hpq.trans hqr)
    · exact Or.inl (hqr ▸ hpq)
  · rcases hqr with hqr | ⟨hqr, hport'⟩
    · exact Or.inl (hpq ▸ hqr)
    · exact Or.inr ⟨hpq.trans hqr, hport.trans hport'⟩

theorem le_total (p q : PortRef) : p.le q = true ∨ q.le p = true := by
  rw [le_iff, le_iff]
  rcases lt_trichotomy p.node q.node with h | h | h
  · exact Or.inl (Or.inl h)
  · exact (Std.le_total (a := p.port) (b := q.port)).imp (fun hp => Or.inr ⟨h, hp⟩)
      fun hp => Or.inr ⟨h.symm, hp⟩
  · exact Or.inr (Or.inl h)

theorem le_antisymm {p q : PortRef} (hpq : p.le q = true) (hqp : q.le p = true) : p = q := by
  rw [le_iff] at hpq hqp
  obtain ⟨node, port⟩ := p
  obtain ⟨node', port'⟩ := q
  rcases hpq with hpq | ⟨rfl, hport⟩
  · rcases hqp with hqp | ⟨hqp, -⟩
    · exact absurd hqp (lt_asymm hpq)
    · exact absurd hpq (hqp ▸ lt_irrefl _)
  · rcases hqp with hqp | ⟨-, hport'⟩
    · exact absurd hqp (lt_irrefl _)
    · exact congrArg (PortRef.mk node) (hport.antisymm hport')

end PortRef

namespace Link

theorem le_iff {k l : Link} : k.le l = true ↔
    k.target = l.target ∧ k.origin.le l.origin = true ∨
      k.target ≠ l.target ∧ k.target.le l.target = true := by
  unfold le
  split <;> simp_all

theorem le_trans (j k l : Link) (hjk : j.le k = true) (hkl : k.le l = true) :
    j.le l = true := by
  rw [le_iff] at hjk hkl ⊢
  rcases hjk with ⟨hjk, horigin⟩ | ⟨hne, hjk⟩
  · rcases hkl with ⟨hkl, horigin'⟩ | ⟨hne', hkl⟩
    · exact Or.inl ⟨hjk.trans hkl, PortRef.le_trans horigin horigin'⟩
    · exact Or.inr ⟨hjk ▸ hne', hjk ▸ hkl⟩
  · rcases hkl with ⟨hkl, -⟩ | ⟨hne', hkl⟩
    · exact Or.inr ⟨hkl ▸ hne, hkl ▸ hjk⟩
    · refine Or.inr ⟨?_, PortRef.le_trans hjk hkl⟩
      intro hjl
      exact hne (PortRef.le_antisymm hjk (hjl ▸ hkl))

theorem le_total (k l : Link) : (k.le l || l.le k) = true := by
  rw [Bool.or_eq_true, le_iff, le_iff]
  by_cases htarget : k.target = l.target
  · exact (k.origin.le_total l.origin).imp (fun h => Or.inl ⟨htarget, h⟩)
      fun h => Or.inl ⟨htarget.symm, h⟩
  · exact (k.target.le_total l.target).imp (fun h => Or.inr ⟨htarget, h⟩)
      fun h => Or.inr ⟨Ne.symm htarget, h⟩

theorem le_antisymm {k l : Link} (hkl : k.le l = true) (hlk : l.le k = true) : k = l := by
  rw [le_iff] at hkl hlk
  obtain ⟨target, origin⟩ := k
  obtain ⟨target', origin'⟩ := l
  rcases hkl with ⟨rfl, horigin⟩ | ⟨hne, hkl⟩
  · rcases hlk with ⟨-, horigin'⟩ | ⟨hne, -⟩
    · exact congrArg (Link.mk target) (PortRef.le_antisymm horigin horigin')
    · exact absurd rfl hne
  · rcases hlk with ⟨heq, -⟩ | ⟨-, hlk⟩
    · exact absurd heq.symm hne
    · exact absurd (PortRef.le_antisymm hkl hlk) hne

end Link

namespace Graph

variable {g h : Graph}

theorem linkOrigin?_of_mem (hg : (g.links.map Link.target).Nodup) {l : Link} (hl : l ∈ g.links) :
    g.linkOrigin? l.target = some l.origin := by
  have hsome : (g.links.find? fun k => k.target == l.target).isSome := by
    rw [List.find?_isSome]
    exact ⟨l, hl, by simp⟩
  obtain ⟨k, hk⟩ := Option.isSome_iff_exists.1 hsome
  have htarget : k.target = l.target := by simpa using List.find?_some hk
  rw [linkOrigin?, hk, List.inj_on_of_nodup_map hg (List.mem_of_find?_eq_some hk) hl htarget]
  rfl

theorem mem_links_iff (hg : (g.links.map Link.target).Nodup) {l : Link} :
    l ∈ g.links ↔ g.linkOrigin? l.target = some l.origin := by
  refine ⟨linkOrigin?_of_mem hg, ?_⟩
  intro h
  obtain ⟨k, hk, htarget, horigin⟩ := linkOrigin?_eq_some h
  obtain ⟨target, origin⟩ := l
  cases htarget
  cases horigin
  exact hk

/-- Sorting brings the links of one map into one order, however they were made. -/
theorem sortedLinks_eq_iff (hg : (g.links.map Link.target).Nodup)
    (hh : (h.links.map Link.target).Nodup) :
    g.links.mergeSort Link.le = h.links.mergeSort Link.le ↔
      ∀ target, g.linkOrigin? target = h.linkOrigin? target := by
  constructor
  · intro hsorted target
    have hperm : g.links.Perm h.links :=
      (List.mergeSort_perm _ Link.le).symm.trans (hsorted ▸ List.mergeSort_perm _ Link.le)
    apply Option.ext
    intro origin
    have hmem := hperm.mem_iff (a := ⟨target, origin⟩)
    rw [mem_links_iff hg, mem_links_iff hh] at hmem
    exact hmem
  · intro horigins
    have hperm : g.links.Perm h.links := by
      rw [List.perm_ext_iff_of_nodup hg.of_map hh.of_map]
      intro l
      rw [mem_links_iff hg, mem_links_iff hh, horigins]
    exact List.Perm.eq_of_pairwise (fun _ _ _ _ => Link.le_antisymm)
      (List.pairwise_mergeSort Link.le_trans Link.le_total _)
      (List.pairwise_mergeSort Link.le_trans Link.le_total _)
      (((List.mergeSort_perm _ _).trans hperm).trans (List.mergeSort_perm _ _).symm)

theorem Reachable.encoding_eq (hg : g.Reachable) :
    g.encoding = Bytes.ofSizedText g.name ++ ((g.nodes.map Node.identity).flatMap encodeIdentity
      ++ (g.links.mergeSort Link.le).flatMap Link.encoding) := by
  unfold encoding
  rw [List.append_assoc, List.flatMap_map]
  congr 2
  apply List.flatMap_congr
  intro n hn
  exact (hg.declared n hn).encoding_eq

/-- Authored values and the order in which links were made leave no trace. -/
theorem SameStructure.encoding_eq (hg : g.Reachable) (hh : h.Reachable)
    (hsame : g.SameStructure h) : g.encoding = h.encoding := by
  rw [hg.encoding_eq, hh.encoding_eq, hsame.name, hsame.nodes,
    (sortedLinks_eq_iff hg.wellFormed.targets_nodup hh.wellFormed.targets_nodup).2 hsame.links]

end Graph

end Dataflow
