import Dataflow.Proofs.Graph.Agreement

/-!
# Orders of the dependencies

The dependencies of an index have no order of their own: they can be listed in any. Whatever the
order is, it is that of a graph whose links were made in a suitable order:
`Graph.exists_links_of_edges`. So what holds for the indexes of graphs holds for every order of the
dependencies.
-/

namespace Dataflow

/-- The index with its dependencies listed like this. -/
def Index.listing (ix : Index) (edges : List (String × String)) : Index := { ix with edges }

namespace Graph

/-- The graph with its links listed like this. -/
def withLinks (g : Graph) (links : List Link) : Graph := { g with links, token := some g.version }

variable {g : Graph} {links : List Link}

theorem version_withLinks (g : Graph) (links : List Link) :
    (g.withLinks links).version = g.version :=
  Option.getD_some

/-- Links are found by their targets, in whatever order they are listed. -/
theorem linkOrigin?_withLinks (hg : g.WellFormed) (hlinks : links.Perm g.links)
    (target : PortRef) : (g.withLinks links).linkOrigin? target = g.linkOrigin? target := by
  have hnodup : ((g.withLinks links).links.map Link.target).Nodup :=
    (hlinks.map Link.target).nodup_iff.2 hg.targets_nodup
  apply Option.ext
  intro origin
  constructor
  · intro h
    obtain ⟨l, hl, rfl, rfl⟩ := linkOrigin?_eq_some h
    exact linkOrigin?_of_mem hg.targets_nodup (hlinks.mem_iff.1 hl)
  · intro h
    obtain ⟨l, hl, rfl, rfl⟩ := linkOrigin?_eq_some h
    exact linkOrigin?_of_mem hnodup (hlinks.mem_iff.2 hl)

theorem sameStructure_withLinks (hg : g.WellFormed) (hlinks : links.Perm g.links) :
    (g.withLinks links).SameStructure g :=
  ⟨rfl, rfl, linkOrigin?_withLinks hg hlinks⟩

theorem wellFormed_withLinks (hg : g.WellFormed) (hlinks : links.Perm g.links) :
    (g.withLinks links).WellFormed := by
  refine ⟨hg.names_nodup, hg.nodes_wellFormed,
    (hlinks.map Link.target).nodup_iff.2 hg.targets_nodup, ?_⟩
  intro l hl
  obtain ⟨htyped, hapart⟩ := hg.links_wellFormed l (hlinks.mem_iff.1 hl)
  exact ⟨htyped, hapart⟩

end Graph

/-! ## Orders of lists -/

theorem nodup_eraseDups {α : Type} [BEq α] [LawfulBEq α] (l : List α) : l.eraseDups.Nodup := by
  induction hlen : l.length using Nat.strongRecOn generalizing l with
  | ind count ih =>
      cases l with
      | nil => simp
      | cons a rest =>
          rw [List.eraseDups_cons, List.nodup_cons]
          have hle := List.length_filter_le (fun b => !b == a) rest
          refine ⟨?_, ih _ ?_ _ rfl⟩
          · rw [List.mem_eraseDups]
            simp
          · rw [← hlen, List.length_cons]
            omega

theorem eraseDups_of_forall_eq {α : Type} [BEq α] [LawfulBEq α] {a : α} {l : List α}
    (hmem : a ∈ l) (h : ∀ b ∈ l, b = a) : l.eraseDups = [a] := by
  cases l with
  | nil => contradiction
  | cons b l =>
      have hrest : (l.filter fun c => !c == a) = [] := by
        rw [List.filter_eq_nil_iff]
        intro c hc
        rw [h c (List.mem_cons_of_mem _ hc)]
        simp
      rw [List.eraseDups_cons, h b List.mem_cons_self, hrest]
      rfl

section

variable {α κ : Type} [BEq κ] [LawfulBEq κ] {key : α → Option κ} {xs : List α} {j k : κ}

theorem mem_filterMap_filter_eq :
    j ∈ (xs.filter fun x => key x == some k).filterMap key ↔ j = k ∧ j ∈ xs.filterMap key := by
  simp only [List.mem_filterMap, List.mem_filter, beq_iff_eq]
  constructor
  · rintro ⟨x, ⟨hx, hfirst⟩, hkey⟩
    exact ⟨Option.some.inj (hkey.symm.trans hfirst), x, hx, hkey⟩
  · rintro ⟨rfl, x, hx, hkey⟩
    exact ⟨x, ⟨hx, hkey⟩, hkey⟩

theorem mem_filterMap_filter_ne :
    j ∈ (xs.filter fun x => !key x == some k).filterMap key ↔ j ≠ k ∧ j ∈ xs.filterMap key := by
  simp only [List.mem_filterMap, List.mem_filter, Bool.not_eq_true', beq_eq_false_iff_ne]
  constructor
  · rintro ⟨x, ⟨hx, hne⟩, hkey⟩
    exact ⟨fun heq => hne (heq ▸ hkey), x, hx, hkey⟩
  · rintro ⟨hne, x, hx, hkey⟩
    refine ⟨x, ⟨hx, ?_⟩, hkey⟩
    rw [hkey]
    exact fun h => hne (Option.some.inj h)

end

/-- Elements can be put in such an order that their keys come first in a given order. -/
theorem exists_perm_of_keys {α κ : Type} [BEq κ] [LawfulBEq κ] (key : α → Option κ)
    {keys : List κ} (hnodup : keys.Nodup) {xs : List α}
    (hkeys : ∀ k, k ∈ keys ↔ k ∈ xs.filterMap key) :
    ∃ ys : List α, ys.Perm xs ∧ (ys.filterMap key).eraseDups = keys := by
  induction keys generalizing xs with
  | nil =>
      have hnone : xs.filterMap key = [] :=
        List.eq_nil_iff_forall_not_mem.2 fun k hk => List.not_mem_nil ((hkeys k).2 hk)
      exact ⟨xs, .refl _, by rw [hnone]; rfl⟩
  | cons k keys ih =>
      obtain ⟨hk, hnodup'⟩ := List.nodup_cons.1 hnodup
      -- the elements with the first key go first, and none of the others has it
      have hrest : ∀ j, j ∈ keys ↔
          j ∈ (xs.filter fun x => !key x == some k).filterMap key := by
        intro j
        rw [mem_filterMap_filter_ne, ← hkeys, List.mem_cons]
        constructor
        · exact fun hmem => ⟨fun heq => hk (heq ▸ hmem), .inr hmem⟩
        · rintro ⟨hne, hmem⟩
          exact hmem.resolve_left hne
      obtain ⟨ys, hys, hdups⟩ := ih hnodup' hrest
      refine ⟨(xs.filter fun x => key x == some k) ++ ys,
        (hys.append_left _).trans (List.filter_append_perm _ xs), ?_⟩
      have hfirst : ((xs.filter fun x => key x == some k).filterMap key).eraseDups = [k] :=
        eraseDups_of_forall_eq
          (mem_filterMap_filter_eq.2 ⟨rfl, (hkeys k).1 List.mem_cons_self⟩)
          fun j hj => (mem_filterMap_filter_eq.1 hj).1
      have hother : (ys.filterMap key).removeAll
          ((xs.filter fun x => key x == some k).filterMap key) = ys.filterMap key := by
        refine List.filter_eq_self.2 fun j hj => ?_
        have hlater := (mem_filterMap_filter_ne.1 ((hys.filterMap key).mem_iff.1 hj)).1
        have hne : j ∉ (xs.filter fun x => key x == some k).filterMap key :=
          fun hmem => hlater (mem_filterMap_filter_eq.1 hmem).1
        simpa using hne
      rw [List.filterMap_append, List.eraseDups_append, hfirst, hother, hdups]
      rfl

/-! ## Orders of dependencies -/

theorem Index.edges_build_nodup (g : Graph) : (build g).edges.Nodup := nodup_eraseDups _

namespace Graph

variable {g : Graph}

/-- What a link adds to the dependencies. -/
def dependency? (g : Graph) (l : Link) : Option (String × String) :=
  (g.resolve? l.target).map fun origin => (l.target.node, origin.node)

theorem edges_build (g : Graph) :
    (Index.build g).edges = (g.links.filterMap g.dependency?).eraseDups := by
  change (((g.links.filterMap _).map _).eraseDups) = _
  rw [List.map_filterMap]
  congr 1
  apply List.filterMap_congr
  intro l _
  unfold dependency?
  cases g.resolve? l.target <;> rfl

theorem dependency?_withLinks (hg : g.Reachable) {links : List Link}
    (hlinks : links.Perm g.links) : (g.withLinks links).dependency? = g.dependency? := by
  funext l
  unfold dependency?
  rw [(sameStructure_withLinks hg.wellFormed hlinks).resolve?_eq hg.declared hg.declared]

/-- Asking for the version leaves the dependencies as they are. -/
theorem edges_remember (hg : g.Reachable) :
    (Index.build g.remember).edges = (Index.build g).edges := by
  change (Index.build (g.withLinks g.links)).edges = _
  rw [edges_build, edges_build, dependency?_withLinks hg (.refl _)]
  rfl

/-- Every order of the dependencies comes from some order of the links. -/
theorem exists_links_of_edges (hg : g.Reachable) {edges : List (String × String)}
    (hedges : edges.Perm (Index.build g).edges) :
    ∃ links : List Link, links.Perm g.links ∧ (Index.build (g.withLinks links)).edges = edges := by
  rw [edges_build] at hedges
  have hmem : ∀ e, e ∈ edges ↔ e ∈ g.links.filterMap g.dependency? := fun e =>
    hedges.mem_iff.trans List.mem_eraseDups
  obtain ⟨links, hlinks, hdups⟩ :=
    exists_perm_of_keys g.dependency? (hedges.nodup_iff.2 (nodup_eraseDups _)) hmem
  refine ⟨links, hlinks, ?_⟩
  rw [edges_build, dependency?_withLinks hg hlinks]
  exact hdups

end Graph

end Dataflow
