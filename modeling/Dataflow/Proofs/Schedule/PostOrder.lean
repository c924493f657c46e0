import Dataflow.Schedule
import Mathlib.Logic.Relation
import Mathlib.Tactic.Tauto

/-!
# The evaluation order is a post-order

Working a stack off lists what the stack needs and nothing else, each node once all it needs has
been listed, apart from nodes that are still being worked on. Those reach the node themselves, so
an entry of the order that comes too early lies on a cycle: `Schedule.inTurn_iff_acyclic`.
-/

namespace Dataflow

open Relation

/-- Each entry suits those before it, the `earlier` ones included. -/
def InTurn {α : Type} (suits : List α → α → Prop) : List α → List α → Prop
  | _, [] => True
  | earlier, a :: rest => suits earlier a ∧ InTurn suits (earlier ++ [a]) rest

namespace InTurn

variable {α : Type} {suits suits' : List α → α → Prop} {earlier as bs : List α}

theorem append_iff : InTurn suits earlier (as ++ bs) ↔
    InTurn suits earlier as ∧ InTurn suits (earlier ++ as) bs := by
  induction as generalizing earlier with
  | nil => simp [InTurn]
  | cons a as ih => simp [InTurn, ih, and_assoc]

theorem mono (h : InTurn suits earlier as)
    (himp : ∀ before a, a ∈ as → suits before a → suits' before a) :
    InTurn suits' earlier as := by
  induction as generalizing earlier with
  | nil => trivial
  | cons a as ih =>
      exact ⟨himp _ _ List.mem_cons_self h.1,
        ih h.2 fun before b hb => himp before b (List.mem_cons_of_mem _ hb)⟩

theorem of_split {before after : List α} {a : α} (h : InTurn suits [] (before ++ a :: after)) :
    suits before a := by
  obtain ⟨-, hrest⟩ := append_iff.1 h
  exact hrest.1

theorem map_iff {β : Type} {f : β → α} {earlier xs : List β} :
    InTurn suits (earlier.map f) (xs.map f) ↔
      InTurn (fun before x => suits (before.map f) (f x)) earlier xs := by
  induction xs generalizing earlier with
  | nil => exact Iff.rfl
  | cons x xs ih =>
      rw [List.map_cons]
      unfold InTurn
      rw [← ih, List.map_append]
      rfl

end InTurn

namespace Schedule

variable {needs : String → List String}

/-- The second node is one that the first one needs. -/
def Step (needs : String → List String) (a b : String) : Prop := b ∈ needs a

section

variable {p : Progress} {node : String}

theorem visit_nil (needs : String → List String) (p : Progress) : visit needs p [] = p := by
  rw [visit]

theorem visit_cons_of_fresh (hfresh : node ∈ p.fresh) (rest : List String) :
    visit needs p (node :: rest) = visit needs ⟨p.fresh.erase node, p.listed⟩
      ((needs node).filter (fun n => (p.fresh.erase node).contains n) ++ node :: rest) := by
  rw [visit, dif_pos hfresh]

theorem visit_cons_of_listed (hfresh : node ∉ p.fresh) (hlisted : p.listed.contains node = true)
    (rest : List String) : visit needs p (node :: rest) = visit needs p rest := by
  rw [visit, dif_neg hfresh, if_pos hlisted]

theorem visit_cons_of_open (hfresh : node ∉ p.fresh) (hlisted : ¬ p.listed.contains node = true)
    (rest : List String) :
    visit needs p (node :: rest) = visit needs ⟨p.fresh, p.listed ++ [node]⟩ rest := by
  rw [visit, dif_neg hfresh, if_neg hlisted]

end

theorem visit_append (needs : String → List String) (p : Progress) (as bs : List String) :
    visit needs p (as ++ bs) = visit needs (visit needs p as) bs := by
  induction p, as using visit.induct needs with
  | case1 p => rw [List.nil_append, visit_nil]
  | case2 p node rest hfresh fresh pending ih =>
      rw [List.append_assoc, List.cons_append] at ih
      rw [List.cons_append, visit_cons_of_fresh hfresh, visit_cons_of_fresh hfresh]
      exact ih
  | case3 p node rest hfresh hlisted ih =>
      rw [List.cons_append, visit_cons_of_listed hfresh hlisted,
        visit_cons_of_listed hfresh hlisted]
      exact ih
  | case4 p node rest hfresh hlisted ih =>
      rw [List.cons_append, visit_cons_of_open hfresh hlisted, visit_cons_of_open hfresh hlisted]
      exact ih

namespace Progress

/-- Each node is listed or undiscovered or being worked on, and only one of these. -/
structure Sound (p : Progress) : Prop where
  nodup : p.fresh.Nodup
  apart : ∀ n ∈ p.listed, n ∉ p.fresh

/-- The node has been discovered but not listed. -/
def Open (p : Progress) (n : String) : Prop := n ∉ p.fresh ∧ n ∉ p.listed

/-- What a node may need when it is listed, after the nodes of `new` that come earlier. -/
def Allows (needs : String → List String) (p : Progress) (new earlier : List String)
    (n : String) : Prop :=
  ∀ m ∈ needs n, m ∈ earlier ∨ p.Open m ∨ m ∈ new ∧ ReflTransGen (Step needs) m n

/-- Working the stack off leads from `p` to `q` and lists the nodes of `new`. -/
structure Lists (needs : String → List String) (p : Progress) (stack new : List String)
    (q : Progress) : Prop where
  listed : q.listed = p.listed ++ new
  nodup : q.fresh.Nodup
  length : q.fresh.length ≤ p.fresh.length
  fresh : ∀ n, n ∈ q.fresh ↔ n ∈ p.fresh ∧ n ∉ new
  taken : ∀ n ∈ new, n ∈ p.fresh
  worked : ∀ n ∈ stack, n ∈ q.listed
  reached : ∀ n ∈ new, ∃ s ∈ stack, ReflTransGen (Step needs) s n
  inTurn : InTurn (p.Allows needs new) p.listed new

variable {p q r : Progress} {stack stack' new new' : List String} {node : String}

theorem Lists.sound (h : Lists needs p stack new q) (hp : p.Sound) : q.Sound := by
  refine ⟨h.nodup, ?_⟩
  intro n hn hfresh
  obtain ⟨hold, hnew⟩ := (h.fresh n).1 hfresh
  rw [h.listed] at hn
  rcases List.mem_append.1 hn with hn | hn
  · exact hp.apart n hn hold
  · exact hnew hn

theorem Lists.nil (hp : p.Sound) : Lists needs p [] [] p where
  listed := by simp
  nodup := hp.nodup
  length := Nat.le_refl _
  fresh := by simp
  taken := by simp
  worked := by simp
  reached := by simp
  inTurn := trivial

theorem Lists.skip (hp : p.Sound) (hnode : node ∈ p.listed) : Lists needs p [node] [] p :=
  { Lists.nil hp with
    worked := by simpa using hnode
    reached := by simp }

/-- Nodes that are open after some work were so before. -/
theorem Lists.open_of_open (h : Lists needs p stack new q) {n : String} (hn : q.Open n) :
    p.Open n := by
  obtain ⟨hfresh, hlisted⟩ := hn
  rw [h.listed, List.mem_append, not_or] at hlisted
  exact ⟨fun hold => hfresh ((h.fresh n).2 ⟨hold, hlisted.2⟩), hlisted.1⟩

theorem Lists.trans (h : Lists needs p stack new q) (h' : Lists needs q stack' new' r) :
    Lists needs p (stack ++ stack') (new ++ new') r where
  listed := by rw [h'.listed, h.listed, List.append_assoc]
  nodup := h'.nodup
  length := Nat.le_trans h'.length h.length
  fresh := by
    intro n
    rw [h'.fresh, h.fresh, List.mem_append, not_or, and_assoc]
  taken := by
    intro n hn
    rcases List.mem_append.1 hn with hn | hn
    · exact h.taken n hn
    · exact ((h.fresh n).1 (h'.taken n hn)).1
  worked := by
    intro n hn
    rcases List.mem_append.1 hn with hn | hn
    · rw [h'.listed]
      exact List.mem_append_left _ (h.worked n hn)
    · exact h'.worked n hn
  reached := by
    intro n hn
    rcases List.mem_append.1 hn with hn | hn
    · obtain ⟨s, hs, hreach⟩ := h.reached n hn
      exact ⟨s, List.mem_append_left _ hs, hreach⟩
    · obtain ⟨s, hs, hreach⟩ := h'.reached n hn
      exact ⟨s, List.mem_append_right _ hs, hreach⟩
  inTurn := by
    refine InTurn.append_iff.2 ⟨h.inTurn.mono ?_, ?_⟩
    · intro earlier n _ hallows m hm
      exact (hallows m hm).imp_right (Or.imp_right (And.imp_left (List.mem_append_left _)))
    · rw [← h.listed]
      refine h'.inTurn.mono ?_
      intro earlier n _ hallows m hm
      exact (hallows m hm).imp_right
        (Or.imp h.open_of_open (And.imp_left (List.mem_append_right _)))

/-- A node is listed after what it needs has been worked off. -/
theorem Lists.enter (hp : p.Sound) (hnode : node ∈ p.fresh)
    (h : Lists needs ⟨p.fresh.erase node, p.listed⟩
      ((needs node).filter fun n => (p.fresh.erase node).contains n) new q) :
    Lists needs p [node] (new ++ [node]) ⟨q.fresh, q.listed ++ [node]⟩ where
  listed := by rw [h.listed, List.append_assoc]
  nodup := h.nodup
  length := Nat.le_trans h.length (List.length_erase_le)
  fresh := by
    intro n
    rw [h.fresh, hp.nodup.mem_erase_iff, List.mem_append, List.mem_singleton, not_or]
    tauto
  taken := by
    intro n hn
    rcases List.mem_append.1 hn with hn | hn
    · exact List.mem_of_mem_erase (h.taken n hn)
    · rw [List.mem_singleton.1 hn]
      exact hnode
  worked := by simp
  reached := by
    intro n hn
    refine ⟨node, List.mem_singleton.2 rfl, ?_⟩
    rcases List.mem_append.1 hn with hn | hn
    · obtain ⟨s, hs, hreach⟩ := h.reached n hn
      exact .head (List.mem_filter.1 hs).1 hreach
    · rw [List.mem_singleton.1 hn]
  inTurn := by
    refine InTurn.append_iff.2 ⟨h.inTurn.mono ?_, ?_, trivial⟩
    · intro earlier n hn hallows m hm
      rcases hallows m hm with hearlier | ⟨hfresh, hlisted⟩ | ⟨hnew, hreach⟩
      · exact .inl hearlier
      · by_cases hself : m = node
        · -- the node itself, which reaches all that is worked off for it
          obtain ⟨s, hs, hreach⟩ := h.reached n hn
          rw [hself]
          exact .inr (.inr ⟨by simp, .head (List.mem_filter.1 hs).1 hreach⟩)
        · exact .inr (.inl ⟨fun hold => hfresh ((List.mem_erase_of_ne hself).2 hold), hlisted⟩)
      · exact .inr (.inr ⟨List.mem_append_left _ hnew, hreach⟩)
    · intro m hm
      by_cases hself : m = node
      · rw [hself]
        exact .inr (.inr ⟨by simp, .refl⟩)
      · by_cases hfresh : m ∈ p.fresh
        · have hpending := h.worked m (List.mem_filter.2 ⟨hm, List.contains_iff_mem.2
            ((List.mem_erase_of_ne hself).2 hfresh)⟩)
          rw [h.listed] at hpending
          exact .inl hpending
        · by_cases hlisted : m ∈ p.listed
          · exact .inl (List.mem_append_left _ hlisted)
          · exact .inr (.inl ⟨hfresh, hlisted⟩)

end Progress

open Progress

theorem visit_of_listed {p : Progress} (hp : p.Sound) {node : String} (hnode : node ∈ p.listed) :
    visit needs p [node] = p := by
  rw [visit_cons_of_listed (hp.apart node hnode) (List.contains_iff_mem.2 hnode), visit_nil]

theorem visit_of_fresh {p q : Progress} (hp : p.Sound) {node : String} (hnode : node ∈ p.fresh)
    {new : List String} (h : Lists needs ⟨p.fresh.erase node, p.listed⟩
      ((needs node).filter fun n => (p.fresh.erase node).contains n) new q)
    (hvisit : visit needs ⟨p.fresh.erase node, p.listed⟩
      ((needs node).filter fun n => (p.fresh.erase node).contains n) = q) :
    visit needs p [node] = ⟨q.fresh, q.listed ++ [node]⟩ := by
  have hfresh : node ∉ q.fresh := fun hmem =>
    hp.nodup.not_mem_erase ((h.fresh node).1 hmem).1
  have hlisted : node ∉ q.listed := by
    rw [h.listed]
    intro hmem
    rcases List.mem_append.1 hmem with hmem | hmem
    · exact hp.apart node hmem hnode
    · exact hp.nodup.not_mem_erase (h.taken node hmem)
  rw [visit_cons_of_fresh hnode, visit_append, hvisit,
    visit_cons_of_open hfresh (by simpa using hlisted), visit_nil]

/-- What working a stack off does: the nodes on it are entered one after the other, and all that
is entered for a node is undiscovered before and no longer afterwards. -/
theorem exists_lists_visit (needs : String → List String) {p : Progress} (hp : p.Sound)
    {stack : List String} (hstack : ∀ s ∈ stack, s ∈ p.fresh ∨ s ∈ p.listed) :
    ∃ new, Lists needs p stack new (visit needs p stack) := by
  obtain ⟨bound, hbound⟩ : ∃ bound, p.fresh.length ≤ bound := ⟨_, Nat.le_refl _⟩
  -- on the number of undiscovered nodes, and for each bound on the stack
  induction bound using Nat.strongRecOn generalizing p stack with
  | _ bound ihbound =>
      induction stack generalizing p with
      | nil => exact ⟨[], by rw [visit_nil]; exact .nil hp⟩
      | cons node stack ih =>
          obtain ⟨first, hfirst⟩ : ∃ new, Lists needs p [node] new (visit needs p [node]) := by
            rcases hstack node List.mem_cons_self with hnode | hnode
            · have herase : Sound ⟨p.fresh.erase node, p.listed⟩ :=
                ⟨hp.nodup.erase node, fun n hn hmem => hp.apart n hn (List.mem_of_mem_erase hmem)⟩
              have hshorter : (p.fresh.erase node).length < bound := by
                have hpos := List.length_pos_of_mem hnode
                rw [List.length_erase_of_mem hnode]
                omega
              have hpending : ∀ s ∈ (needs node).filter fun n => (p.fresh.erase node).contains n,
                  s ∈ p.fresh.erase node ∨ s ∈ p.listed :=
                fun s hs => .inl (List.contains_iff_mem.1 (List.mem_filter.1 hs).2)
              obtain ⟨new, hnew⟩ := ihbound _ hshorter herase hpending (Nat.le_refl _)
              refine ⟨new ++ [node], ?_⟩
              rw [visit_of_fresh hp hnode hnew rfl]
              exact hnew.enter hp hnode
            · exact ⟨[], by rw [visit_of_listed hp hnode]; exact .skip hp hnode⟩
          have hstack' : ∀ s ∈ stack, s ∈ (visit needs p [node]).fresh ∨
              s ∈ (visit needs p [node]).listed := by
            intro s hs
            rw [hfirst.fresh, hfirst.listed, List.mem_append]
            have hold := hstack s (List.mem_cons_of_mem _ hs)
            tauto
          obtain ⟨new, hrest⟩ := ih (hfirst.sound hp) hstack' (Nat.le_trans hfirst.length hbound)
          refine ⟨first ++ new, ?_⟩
          rw [← List.singleton_append, visit_append]
          exact hfirst.trans hrest

/-! ## The whole order -/

section

variable {nodes roots : List String}

theorem exists_lists_start (needs : String → List String) (hnodes : nodes.Nodup)
    (hroots : ∀ root ∈ roots, root ∈ nodes) :
    ∃ new, Lists needs ⟨nodes, []⟩ roots new (visit needs ⟨nodes, []⟩ roots) :=
  exists_lists_visit needs ⟨hnodes, fun _ hn => absurd hn List.not_mem_nil⟩
    fun root hroot => .inl (hroots root hroot)

/-- The order consists of what the roots need, directly or not. -/
theorem mem_visit_iff (hnodes : nodes.Nodup) (hroots : ∀ root ∈ roots, root ∈ nodes)
    (hneeds : ∀ n, ∀ m ∈ needs n, m ∈ nodes) {n : String} :
    n ∈ (visit needs ⟨nodes, []⟩ roots).listed ↔
      ∃ root ∈ roots, ReflTransGen (Step needs) root n := by
  obtain ⟨new, hnew⟩ := exists_lists_start needs hnodes hroots
  have hlisted : (visit needs ⟨nodes, []⟩ roots).listed = new := hnew.listed
  constructor
  · intro hn
    rw [hlisted] at hn
    exact hnew.reached n hn
  · rintro ⟨root, hroot, hreach⟩
    induction hreach with
    | refl => exact hnew.worked root hroot
    | @tail m k _ hstep ih =>
        rw [hlisted] at ih ⊢
        obtain ⟨before, after, rfl⟩ := List.append_of_mem ih
        rcases InTurn.of_split hnew.inTurn k hstep with hearlier | ⟨hfresh, -⟩ | ⟨hmem, -⟩
        · exact List.mem_append_left _ hearlier
        · exact absurd (hneeds m k hstep) hfresh
        · exact hmem

/-- A node is not listed again. -/
theorem nodup_visit {p : Progress} (hp : p.listed.Nodup) (stack : List String) :
    (visit needs p stack).listed.Nodup := by
  induction p, stack using visit.induct needs with
  | case1 p =>
      rw [visit_nil]
      exact hp
  | case2 p node rest hfresh fresh pending ih =>
      rw [visit_cons_of_fresh hfresh]
      exact ih hp
  | case3 p node rest hfresh hlisted ih =>
      rw [visit_cons_of_listed hfresh hlisted]
      exact ih hp
  | case4 p node rest hfresh hlisted ih =>
      rw [visit_cons_of_open hfresh hlisted]
      refine ih (List.nodup_append.2 ⟨hp, by simp, ?_⟩)
      rintro m hm n hn rfl
      rw [List.mem_singleton.1 hn] at hm
      exact hlisted (List.contains_iff_mem.2 hm)

/-- Whatever a node needs comes before it, or needs the node in its turn. -/
theorem visit_inTurn (hnodes : nodes.Nodup) (hroots : ∀ root ∈ roots, root ∈ nodes)
    (hneeds : ∀ n, ∀ m ∈ needs n, m ∈ nodes) :
    InTurn (fun earlier n => ∀ m ∈ needs n, m ∈ earlier ∨ ReflTransGen (Step needs) m n) []
      (visit needs ⟨nodes, []⟩ roots).listed := by
  obtain ⟨new, hnew⟩ := exists_lists_start needs hnodes hroots
  rw [hnew.listed]
  refine hnew.inTurn.mono ?_
  intro earlier n _ hallows m hm
  rcases hallows m hm with hearlier | ⟨hfresh, -⟩ | ⟨-, hreach⟩
  · exact .inl hearlier
  · exact absurd (hneeds n m hm) hfresh
  · exact .inr hreach

end

/-- Nodes that come after all they need lie on no cycle. -/
theorem not_cycle_of_inTurn {earlier order : List String}
    (h : InTurn (fun before n => ∀ m ∈ needs n, m ∈ before) earlier order)
    (hclosed : ∀ n ∈ earlier, ∀ m ∈ needs n, m ∈ earlier)
    (hearlier : ∀ n ∈ earlier, ¬ TransGen (Step needs) n n) :
    ∀ n ∈ earlier ++ order, ¬ TransGen (Step needs) n n := by
  induction order generalizing earlier with
  | nil => simpa using hearlier
  | cons n order ih =>
      obtain ⟨hneeds, hrest⟩ := h
      have hreach : ∀ a b, ReflTransGen (Step needs) a b → a ∈ earlier → b ∈ earlier := by
        intro a b hab ha
        induction hab with
        | refl => exact ha
        | tail _ hstep ih => exact hclosed _ ih _ hstep
      rw [List.append_cons]
      refine ih hrest ?_ ?_
      · intro a ha m hm
        rcases List.mem_append.1 ha with ha | ha
        · exact List.mem_append_left _ (hclosed a ha m hm)
        · rw [List.mem_singleton.1 ha] at hm
          exact List.mem_append_left _ (hneeds m hm)
      · intro a ha
        rcases List.mem_append.1 ha with ha | ha
        · exact hearlier a ha
        · rw [List.mem_singleton.1 ha]
          intro hcycle
          obtain ⟨m, hstep, hback⟩ := TransGen.head'_iff.1 hcycle
          exact hearlier n (hreach m n hback (hneeds m hstep)) hcycle

theorem inTurn_iff_acyclic {nodes roots : List String} (hnodes : nodes.Nodup)
    (hroots : ∀ root ∈ roots, root ∈ nodes) (hneeds : ∀ n, ∀ m ∈ needs n, m ∈ nodes) :
    InTurn (fun earlier n => ∀ m ∈ needs n, m ∈ earlier) []
        (visit needs ⟨nodes, []⟩ roots).listed ↔
      ∀ n ∈ (visit needs ⟨nodes, []⟩ roots).listed, ¬ TransGen (Step needs) n n := by
  constructor
  · intro h
    exact not_cycle_of_inTurn h (fun _ hn => absurd hn List.not_mem_nil)
      (fun _ hn => absurd hn List.not_mem_nil)
  · intro h
    refine (visit_inTurn hnodes hroots hneeds).mono ?_
    intro earlier n hn hsuits m hm
    refine (hsuits m hm).resolve_right ?_
    intro hback
    exact h n hn (.head' hm hback)

end Schedule

end Dataflow
