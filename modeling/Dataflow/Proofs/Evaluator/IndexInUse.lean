import Dataflow.Proofs.Evaluator.Snapshots
import Dataflow.Proofs.Index.Views
import Dataflow.Proofs.Version.FixedKinds

/-!
# The index in use

An evaluator builds its index again only where it counts as stale or has another version than the
graph. A graph of the same version that is taken over finds the index of an earlier snapshot,
whose links may have been made in another order. That index answers every query as one of the
graph itself would, except for the order in which it lists the inputs that an output feeds:
`Evaluator.index_answers_after`.
-/

namespace Dataflow

section

variable {α : Type} {a b : α} {l l' : List α}

theorem eq_of_sublist_pair (hl : l.Nodup) (hab : [a, b].Sublist l) (hba : [b, a].Sublist l) :
    a = b := by
  induction l with
  | nil => contradiction
  | cons c l ih =>
      obtain ⟨hc, hl⟩ := List.nodup_cons.1 hl
      cases hab with
      | cons _ hab =>
          cases hba with
          | cons _ hba => exact ih hl hab hba
          | cons_cons _ hba => exact absurd (hab.subset (by simp)) hc
      | cons_cons _ hab =>
          cases hba with
          | cons _ hba => exact absurd (hba.subset (by simp)) hc
          | cons_cons _ hba => rfl

/-- Two orders of the same entries are one if any two entries stand the same way round. -/
theorem eq_of_perm_of_sublist_pair (hl' : l'.Nodup) (hperm : l.Perm l')
    (horder : ∀ a b, [a, b].Sublist l → [a, b].Sublist l') : l = l' :=
  List.Perm.eq_of_pairwise (fun _ _ _ _ => eq_of_sublist_pair hl')
    (List.pairwise_iff_forall_sublist.2 fun h => horder _ _ h)
    (List.pairwise_iff_forall_sublist.2 fun h => h) hperm

end

namespace Index

/-- The index answers queries on `g`, and lists targets in the order of the links of `h`. -/
structure Answers (ix : Index) (h g : Graph) : Prop where
  version_eq : ix.version = (build g).version
  directOrigin?_eq (input : PortRef) : ix.directOrigin? input = (build g).directOrigin? input
  dataOrigin?_eq (input : PortRef) : ix.dataOrigin? input = (build g).dataOrigin? input
  isReroute_eq (name : String) : ix.isReroute name = (build g).isReroute name
  contains_eq (name : String) : ix.contains name = (build g).contains name
  dependencies_eq (name : String) : ix.dependencies name = (build g).dependencies name
  dataTargets_perm (output : PortRef) :
    (ix.dataTargets output).Perm ((build g).dataTargets output)
  dataTargets_eq (output : PortRef) : ix.dataTargets output =
    (h.links.map Link.target).filter fun input => (build g).dataOrigin? input == some output
  dataTargets_eq_iff (output : PortRef) :
    ix.dataTargets output = (build g).dataTargets output ↔
      ∀ a ∈ ix.dataTargets output, ∀ b ∈ ix.dataTargets output,
        [a, b].Sublist (h.links.map Link.target) → [a, b].Sublist (g.links.map Link.target)

variable {g h : Graph}

theorem mem_dependencies_of_same (hhg : h.Agrees g) {reader name : String}
    (hname : name ∈ (build h).dependencies reader) : name ∈ (build g).dependencies reader := by
  rw [mem_dependencies, mem_edges_iff] at hname ⊢
  obtain ⟨target, source, horigin, hreader, hsource⟩ := hname
  exact ⟨target, source, hhg.same.hasOrigin hhg.left.declared hhg.right.declared horigin,
    hreader, hsource⟩

theorem dependencies_of_agrees (hhg : h.Agrees g) (reader : String) :
    (build h).dependencies reader = (build g).dependencies reader := by
  have hsorted (k : Graph) := dependencies_pairwise_lt _ (edges_build_nodup k) reader
  have hnodup (k : Graph) : ((build k).dependencies reader).Nodup :=
    (hsorted k).imp fun hlt => hlt.ne
  have hperm : ((build h).dependencies reader).Perm ((build g).dependencies reader) := by
    rw [List.perm_ext_iff_of_nodup (hnodup h) (hnodup g)]
    exact fun name => ⟨mem_dependencies_of_same hhg, mem_dependencies_of_same hhg.symm⟩
  exact List.Perm.eq_of_pairwise (fun _ _ _ _ hab hba => absurd hba hab.asymm) (hsorted h)
    (hsorted g) hperm

/-- Of two graphs of one structure and version the index of the one answers for the other. -/
theorem answers_of_agrees (hhg : h.Agrees g) : (build h).Answers h g := by
  have horigin (input : PortRef) : (build h).dataOrigin? input = (build g).dataOrigin? input := by
    rw [dataOrigin?_build, dataOrigin?_build, hhg.resolve?_eq]
  have hnames : h.nodes.map Node.name = g.nodes.map Node.name := by
    have hidentity := congrArg (List.map Prod.fst) hhg.same.nodes
    rwa [List.map_map, List.map_map] at hidentity
  have hh := views_build hhg.left
  have hg := views_build hhg.right
  have hperm (output : PortRef) :
      ((build h).dataTargets output).Perm ((build g).dataTargets output) := by
    rw [List.perm_ext_iff_of_nodup (hh.dataTargets_nodup output) (hg.dataTargets_nodup output)]
    intro input
    rw [hh.mem_dataTargets_iff, hg.mem_dataTargets_iff, horigin]
  have hfilter (output : PortRef) : (build h).dataTargets output =
      (h.links.map Link.target).filter fun input =>
        (build g).dataOrigin? input == some output := by
    simp only [hh.dataTargets_eq, horigin]
  refine ⟨hhg.version, fun input => hhg.same.links input, horigin, ?_, ?_,
    dependencies_of_agrees hhg, hperm, hfilter, ?_⟩
  · intro name
    change h.rerouteNames.contains name = g.rerouteNames.contains name
    rw [hhg.same.rerouteNames_eq]
  · intro name
    change (h.nodes.map Node.name).contains name = (g.nodes.map Node.name).contains name
    rw [hnames]
  · intro output
    constructor
    · intro heq a ha b hb hab
      rw [heq] at ha hb
      have hkept := hab.filter fun input => (build g).dataOrigin? input == some output
      rw [← hfilter, heq, List.filter_eq_self.2 (by
        simpa using ⟨(hg.mem_dataTargets_iff _ _).1 ha, (hg.mem_dataTargets_iff _ _).1 hb⟩),
        hg.dataTargets_eq] at hkept
      exact hkept.trans List.filter_sublist
    · intro horder
      refine eq_of_perm_of_sublist_pair (hg.dataTargets_nodup output) (hperm output) ?_
      intro a b hab
      have ha := hab.subset (List.mem_cons_self (a := a))
      have hb := hab.subset (show b ∈ [a, b] by simp)
      have hlinks : [a, b].Sublist (g.links.map Link.target) := by
        refine horder a ha b hb (hab.trans ?_)
        rw [hfilter]
        exact List.filter_sublist
      have hkept := hlinks.filter fun input => (build g).dataOrigin? input == some output
      rw [List.filter_eq_self.2 (by
        simpa [← horigin] using ⟨(hh.mem_dataTargets_iff _ _).1 ha,
          (hh.mem_dataTargets_iff _ _).1 hb⟩)] at hkept
      rwa [hg.dataTargets_eq]

end Index

namespace Evaluator

/-- Operations that look at the index. -/
def Command.usesIndex : Command → Bool
  | .index | .ensureGlobals | .code _ => true
  | .compile r => !r.outputs.isEmpty
  | .evaluate outputs | .evaluateWith _ _ outputs => !outputs.isEmpty
  | _ => false

variable {e : Evaluator} {g h : Graph} {graphs : List Graph}

/-- The snapshot that the index in use describes where the last one was built from `h`. -/
def indexSource (e : Evaluator) (h : Graph) : Graph :=
  if e.stale || e.index.version != e.version then e.graph else h

/-- The snapshot that the index was last built from, after the operations. -/
def indexed (e : Evaluator) (h : Graph) : List Command → Graph
  | [] => h
  | command :: commands =>
      indexed (e.step command) (if command.usesIndex then e.indexSource h else h) commands

/-- The snapshot that the index in use describes, in the state that a run has reached. -/
def sourceAfter (g : Graph) (options : Options) (commands : List Command) : Graph :=
  ((new g options).after commands).indexSource
    (indexed (new g options) (new g options).graph commands)

/-! ## One operation -/

theorem indexSource_eq_or (e : Evaluator) (h : Graph) :
    e.indexSource h = e.graph ∨ e.indexSource h = h := by
  unfold indexSource
  split
  · exact .inl rfl
  · exact .inr rfl

theorem index_refresh (hindex : e.index = Index.build h) :
    e.refresh.index = Index.build (e.indexSource h) := by
  unfold refresh indexSource
  split
  · rfl
  · exact hindex

theorem index_compile (he : e.Coherent) (r : UnitRequest) :
    (e.compile r).2.index = if r.outputs.isEmpty then e.index else e.refresh.index := by
  have hasks := asks_compile he r
  generalize e.compile r = outcome at hasks ⊢
  obtain ⟨result, e'⟩ := outcome
  cases hasks with
  | refused hempty => simp [hempty]
  | found houtputs _ => simp [houtputs]
  | failed houtputs _ ensured _ => simp [houtputs, ensured.index, refresh_counted, counted_index]
  | built houtputs _ ensured _ => simp [houtputs, ensured.index, refresh_counted, counted_index]

theorem index_step (he : e.Coherent) (command : Command) :
    (e.step command).index = if command.usesIndex then e.refresh.index else e.index := by
  cases command with
  | replaceGraph g =>
      by_cases hversion : g.version = e.version
      · obtain ⟨banks, hframe⟩ := replaceGraph_frame_of_eq he hversion
        rw [step, hframe]
        rfl
      · rw [step, replaceGraph_of_ne hversion]
        rfl
  | markStale => rfl
  | invalidate version => rfl
  | index => rfl
  | ensureGlobals =>
      obtain ⟨globals, e', hensure, hensured⟩ := exists_ensured he
      rw [step, hensure]
      exact hensured.index
  | compile r => simp [step, Command.usesIndex, index_compile he]
  | code r => rfl
  | writeInput port value =>
      rcases writeInput_cases e port value with ⟨err, hwrite⟩ | ⟨globals, cell, -, -, -, hwrite⟩
      · rw [step, hwrite]
        rfl
      · rw [step, hwrite]
        rfl
  | setInput port value =>
      obtain ⟨graph, banks, hframe⟩ := setInput_frame e port value
      rw [step, hframe]
      rfl
  | readInput port => rfl
  | syncInputs =>
      obtain ⟨banks, hframe⟩ := syncInputs_frame e
      rw [step, hframe]
      rfl
  | invoke unit values => rfl
  | evaluate outputs =>
      simp [step, Command.usesIndex, evaluate, snd_evaluateRequest, index_compile he]
  | evaluateWith inputs values outputs =>
      simp [step, Command.usesIndex, evaluateWith, snd_evaluateRequest, index_compile he]

/-- The index was built from the snapshot, which agrees with one of the graphs. -/
structure Tracks (graphs : List Graph) (e : Evaluator) (h : Graph) : Prop where
  built : e.index = Index.build h
  listed : ∃ k ∈ graphs, h.Agrees k

theorem Tracks.listed_indexSource (htracks : Tracks graphs e h) (hstep : InStep graphs e) :
    ∃ k ∈ graphs, (e.indexSource h).Agrees k := by
  rcases e.indexSource_eq_or h with hsource | hsource
  · rw [hsource]
    exact hstep.graph
  · rw [hsource]
    exact htracks.listed

theorem Tracks.step (htracks : Tracks graphs e h) (hstep : InStep graphs e) (he : e.Coherent)
    (command : Command) :
    Tracks graphs (e.step command) (if command.usesIndex then e.indexSource h else h) := by
  have hindex := index_step he command
  split
  · rename_i huses
    rw [if_pos huses, index_refresh htracks.built] at hindex
    exact ⟨hindex, htracks.listed_indexSource hstep⟩
  · rename_i hidle
    rw [if_neg hidle] at hindex
    exact ⟨hindex.trans htracks.built, htracks.listed⟩

/-! ## A run -/

theorem Tracks.after (htracks : Tracks graphs e h) (hstep : InStep graphs e)
    (hapart : Graph.ToldApart graphs) (he : e.Coherent) {commands : List Command}
    (hlisted : ∀ command ∈ commands, ∀ g, command.graph? = some g → g ∈ graphs) :
    Tracks graphs (e.after commands) (indexed e h commands) := by
  induction commands generalizing e h with
  | nil => exact htracks
  | cons command commands ih =>
      rw [List.forall_mem_cons] at hlisted
      exact ih (htracks.step hstep he command) (hstep.step hapart he hlisted.1)
        (Changes.coherent (changes_step he command) he) hlisted.2

/-- The index in use is that of a snapshot of the version and structure of the present one. -/
theorem Tracks.agrees (htracks : Tracks graphs e h) (hstep : InStep graphs e)
    (hapart : Graph.ToldApart graphs) : (e.indexSource h).Agrees e.graph := by
  refine hapart.agrees_of_version (htracks.listed_indexSource hstep) hstep.graph ?_
  calc (e.indexSource h).version = (Index.build (e.indexSource h)).version := rfl
    _ = e.refresh.index.version := by rw [index_refresh htracks.built]
    _ = e.graph.version := version_index_refresh e

/-- The snapshot was in use at some point of the run. -/
theorem indexed_eq_or (e : Evaluator) (h : Graph) (commands : List Command) :
    indexed e h commands = h ∨
      ∃ earlier, earlier <+: commands ∧ indexed e h commands = (e.after earlier).graph := by
  induction commands generalizing e h with
  | nil => exact .inl rfl
  | cons command commands ih =>
      rw [indexed]
      rcases ih (e.step command) (if command.usesIndex then e.indexSource h else h) with
        hsame | ⟨earlier, hprefix, hgraph⟩
      · rw [hsame]
        split
        · rcases e.indexSource_eq_or h with hsource | hsource
          · exact .inr ⟨[], List.nil_prefix, hsource⟩
          · exact .inl hsource
        · exact .inl rfl
      · exact .inr ⟨command :: earlier, List.cons_prefix_cons.2 ⟨rfl, hprefix⟩, hgraph⟩

theorem exists_sourceAfter_eq (g : Graph) (options : Options) (commands : List Command) :
    ∃ earlier, earlier <+: commands ∧
      sourceAfter g options commands = ((new g options).after earlier).graph := by
  rcases ((new g options).after commands).indexSource_eq_or
    (indexed (new g options) (new g options).graph commands) with hsource | hsource
  · exact ⟨commands, List.prefix_rfl, hsource⟩
  · rcases indexed_eq_or (new g options) (new g options).graph commands with
      hsame | ⟨earlier, hprefix, hgraph⟩
    · exact ⟨[], List.nil_prefix, hsource.trans hsame⟩
    · exact ⟨earlier, hprefix, hsource.trans hgraph⟩

/-- In every state that is reached the index in use was built from a snapshot of the run that has
the version and structure of the present one, and answers as an index of the present one would,
but for the order of the inputs that an output feeds. It is an index of the present snapshot
itself wherever the old one counted as stale. -/
theorem index_answers_after {g : Graph} {commands : List Command}
    (hapart : Graph.ToldApart (graphsOf g commands)) (options : Options) {e : Evaluator}
    (he : (new g options).after commands = e) {h : Graph}
    (hsource : sourceAfter g options commands = h) :
    e.refresh.index = Index.build h ∧ h.Agrees e.graph ∧ e.refresh.index.Answers h e.graph ∧
      (∃ earlier, earlier <+: commands ∧ h = ((new g options).after earlier).graph) ∧
      (e.stale = true ∨ e.index.version ≠ e.version → h = e.graph) := by
  subst he hsource
  have hnew : Tracks (graphsOf g commands) (new g options) (new g options).graph :=
    ⟨rfl, g, List.mem_cons_self, (hapart.reachable g List.mem_cons_self).agrees_remember⟩
  have htracks := hnew.after (inStep_new (hapart.reachable g List.mem_cons_self)
    List.mem_cons_self options) hapart (coherent_new g options)
    fun _ hcommand _ hgraph => mem_graphsOf hcommand hgraph
  have hbuilt := index_refresh htracks.built
  have hagrees := htracks.agrees (inStep_after hapart options) hapart
  refine ⟨hbuilt, hagrees, ?_, exists_sourceAfter_eq g options commands, fun hold => ?_⟩
  · rw [hbuilt]
    exact Index.answers_of_agrees hagrees
  · unfold sourceAfter indexSource
    rw [if_pos (by simpa using hold)]

end Evaluator

/-! ## A constant that is doubled, linked in two orders -/

namespace DoubledConstant

def forwards : Graph := graph 0 [toFirst, toSecond]

def backwards : Graph := graph 7 [toSecond, toFirst]

theorem backwards_agrees : backwards.Agrees forwards := by
  have hforwards : forwards.Reachable := reachable_forwards
  have hbackwards : backwards.Reachable := reachable_backwards
  have hsame : backwards.SameStructure forwards :=
    ⟨rfl, rfl, fun target => (linkOrigin?_swapped target).symm⟩
  refine ⟨hbackwards, hforwards, ?_, hsame⟩
  rw [hbackwards.version_eq, hforwards.version_eq, hsame.encoding_eq hbackwards hforwards]

def reordered : List Evaluator.Command := [.replaceGraph backwards]

theorem toldApart_reordered :
    Graph.ToldApart (Evaluator.graphsOf forwards reordered) := by
  have hagrees : ∀ g ∈ Evaluator.graphsOf forwards reordered, g.Agrees forwards := by
    intro g hg
    change g ∈ [forwards, backwards] at hg
    rcases List.mem_pair.1 hg with rfl | rfl
    · exact .refl reachable_forwards
    · exact backwards_agrees
  exact ⟨fun g hg => (hagrees g hg).left,
    fun g hg h hh _ => ((hagrees g hg).trans (hagrees h hh).symm).same⟩

theorem after_reordered : ∃ banks, (Evaluator.new forwards {}).after reordered =
    { Evaluator.new forwards {} with graph := backwards.remember, banks } :=
  Evaluator.replaceGraph_frame_of_eq (Evaluator.coherent_new forwards {})
    (g := backwards) backwards_agrees.version

theorem sourceAfter_reordered :
    Evaluator.sourceAfter forwards {} reordered = forwards.remember := by
  obtain ⟨banks, hafter⟩ := after_reordered
  unfold Evaluator.sourceAfter Evaluator.indexSource
  rw [hafter, if_neg]
  · rfl
  · have hversion : forwards.version = backwards.version := backwards_agrees.version.symm
    simp only [Bool.or_eq_true, bne_iff_ne, not_or, not_not]
    exact ⟨by simp [Evaluator.new], hversion⟩

theorem index_reordered : ((Evaluator.new forwards {}).after reordered).refresh.index =
    Index.build forwards.remember := by
  have hbuilt : ((Evaluator.new forwards {}).after reordered).index = Index.build
      (Evaluator.indexed (Evaluator.new forwards {}) forwards.remember reordered) := by
    obtain ⟨banks, hafter⟩ := after_reordered
    rw [hafter]
    rfl
  rw [Evaluator.index_refresh hbuilt]
  exact congrArg Index.build sourceAfter_reordered

theorem graph_reordered :
    ((Evaluator.new forwards {}).after reordered).graph = backwards.remember := by
  obtain ⟨banks, hafter⟩ := after_reordered
  rw [hafter]

theorem index_answers_after_reordered :
    Graph.ToldApart (Evaluator.graphsOf forwards reordered) ∧
    Evaluator.sourceAfter forwards {} reordered = forwards.remember ∧
    ((Evaluator.new forwards {}).after reordered).refresh.index.Answers forwards.remember
      backwards.remember := by
  refine ⟨toldApart_reordered, sourceAfter_reordered, ?_⟩
  rw [← graph_reordered]
  exact (Evaluator.index_answers_after toldApart_reordered {} rfl sourceAfter_reordered).2.2.1

/-- The index in use does not list targets in the order of the present links. -/
theorem dataTargets_in_old_order :
    Graph.ToldApart (Evaluator.graphsOf forwards reordered) ∧
    ((Evaluator.new forwards {}).after reordered).refresh.index.dataTargets ⟨"one", "value"⟩ =
      [⟨"sum", "a"⟩, ⟨"sum", "b"⟩] ∧
    (Index.build ((Evaluator.new forwards {}).after reordered).graph).dataTargets
      ⟨"one", "value"⟩ = [⟨"sum", "b"⟩, ⟨"sum", "a"⟩] := by
  refine ⟨toldApart_reordered, ?_, ?_⟩
  · rw [index_reordered]
    decide +kernel
  · rw [graph_reordered]
    decide +kernel

end DoubledConstant

end Dataflow
