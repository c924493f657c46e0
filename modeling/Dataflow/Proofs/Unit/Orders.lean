import Dataflow.Backend
import Dataflow.Proofs.Graph.Alike
import Dataflow.Proofs.Unit.Sources

/-!
# Units under any order of the dependencies

The order in which an index lists the dependencies decides in which order nodes are evaluated, and
so it gets into the code. With any order of them a graph is compiled like a graph that is alike to
it, with its links in a suitable order: `Graph.exists_generate_listing`.
-/

namespace Dataflow

variable {g : Graph} {edges : List (String × String)} {links : List Link}

theorem UnitPlan.sameSources_listing (hg : g.WellFormed) (hlinks : links.Perm g.links)
    (hedges : (Index.build (g.withLinks links)).edges = edges) :
    SameSources g (g.withLinks links) ((Index.build g).listing edges)
      (Index.build (g.withLinks links)) g.layout (g.withLinks links).layout where
  version := (g.version_withLinks links).symm
  name := rfl
  node? := rfl
  indexVersion := (g.version_withLinks links).symm
  nodes := rfl
  edges := hedges.symm
  reroutes := rfl
  directOrigin? := fun input => (Graph.linkOrigin?_withLinks hg hlinks input).symm
  storageVersion := (g.version_withLinks links).symm

/-- Any order of the dependencies comes from an order of the links. -/
theorem Graph.exists_generate_listing (hg : g.Reachable)
    (hedges : edges.Perm (Index.build g).edges) :
    ∃ links : List Link, links.Perm g.links ∧ ∀ (b : Backend) (r : UnitRequest),
      b.generate g ((Index.build g).listing edges) g.layout r =
        b.generate (g.withLinks links) (Index.build (g.withLinks links)) (g.withLinks links).layout
          r := by
  obtain ⟨links, hlinks, hlisted⟩ := exists_links_of_edges hg hedges
  have halike := withLinks_alike hg hlinks
  refine ⟨links, hlinks, fun b r => ?_⟩
  have horigins : ∀ input, ((Index.build g).listing edges).dataOrigin? input =
      (Index.build (g.withLinks links)).dataOrigin? input := by
    intro input
    rw [Index.dataOrigin?_build, halike.resolve?_eq]
    exact Index.dataOrigin?_build g input
  have hsymbols : ∀ port, (g.layout.cell? port).map StorageCell.symbol =
      ((g.withLinks links).layout.cell? port).map StorageCell.symbol := by
    intro port
    unfold StorageLayout.cell?
    rw [← halike.cells_eq]
  have hsources := UnitPlan.sameSources_listing hg.wellFormed hlinks hlisted
  unfold Backend.generate
  simp only [generateUnit_congr hsources horigins hsymbols]

/-- Units that are generated alike are built alike. -/
theorem Backend.build_congr {b : Backend} {g' : Graph} {ix ix' : Index}
    {storage storage' : StorageLayout} {r : UnitRequest}
    (h : b.generate g ix storage r = b.generate g' ix' storage' r) :
    b.build g ix storage r = b.build g' ix' storage' r := by
  unfold build
  rw [h]

end Dataflow
