import Dataflow.Proofs.Graph.Structure

/-!
# What an encoding tells

An encoding is self-delimiting when it can be read off a longer byte string together with the
place where it ends. A text with its length in front is self-delimiting, and so is a link, which
is four such texts. The texts of links are those of ports, so one bound on the names and
identifiers of a graph covers its links as well.
-/

namespace Dataflow

namespace Bytes

/-- What is encoded, and the place where its encoding ends, can be read off a longer string. -/
def SelfDelimiting {α : Type} (P : α → Prop) (f : α → Bytes) : Prop :=
  ∀ {a b : α} {x y : Bytes}, P a → P b → f a ++ x = f b ++ y → a = b ∧ x = y

/-- A list is read off item by item. -/
theorem SelfDelimiting.eq_of_flatMap {α : Type} {P : α → Prop} {f : α → Bytes}
    (hf : SelfDelimiting P f) (hne : ∀ a, f a ≠ []) {as bs : List α} (has : ∀ a ∈ as, P a)
    (hbs : ∀ b ∈ bs, P b) (h : as.flatMap f = bs.flatMap f) : as = bs := by
  induction as generalizing bs with
  | nil =>
      cases bs with
      | nil => rfl
      | cons b bs => exact absurd (List.append_eq_nil_iff.1 h.symm).1 (hne b)
  | cons a as ih =>
      cases bs with
      | nil => exact absurd (List.append_eq_nil_iff.1 h).1 (hne a)
      | cons b bs =>
          rw [List.flatMap_cons, List.flatMap_cons] at h
          obtain ⟨rfl, hrest⟩ := hf (has a List.mem_cons_self) (hbs b List.mem_cons_self) h
          rw [ih (fun c hc => has c (List.mem_cons_of_mem _ hc))
            (fun c hc => hbs c (List.mem_cons_of_mem _ hc)) hrest]

theorem ofNat_inj_of_lt {count m n : Nat} (hm : m < Nat.pow 256 count)
    (hn : n < Nat.pow 256 count) (h : ofNat count m = ofNat count n) : m = n := by
  have hvalues := congrArg toNat h
  rwa [toNat_ofNat, toNat_ofNat, Nat.mod_eq_of_lt hm, Nat.mod_eq_of_lt hn] at hvalues

theorem ofText_injective : Function.Injective ofText := by
  intro s t h
  exact String.toByteArray_inj.1 (ByteArray.ext (Array.ext' h))

/-- Texts must be shorter than this for their lengths to be written in full. -/
def textLimit : Nat := Nat.pow 256 8

theorem selfDelimiting_ofSizedText :
    SelfDelimiting (fun s => (ofText s).length < textLimit) ofSizedText := by
  intro s t x y hs ht h
  unfold ofSizedText at h
  rw [List.append_assoc, List.append_assoc] at h
  obtain ⟨hsize, hrest⟩ := List.append_inj h (by rw [length_ofNat, length_ofNat])
  obtain ⟨htext, hxy⟩ := List.append_inj hrest (ofNat_inj_of_lt hs ht hsize)
  exact ⟨ofText_injective htext, hxy⟩

theorem ofSizedText_ne_nil (s : String) : ofSizedText s ≠ [] := by
  intro h
  have hlength := congrArg List.length h
  simp [ofSizedText, length_ofNat] at hlength

end Bytes

theorem DataType.tag_injective : Function.Injective DataType.tag := by
  intro s t
  cases s <;> cases t <;> decide

/-! ## Texts of bounded length -/

/-- All names and identifiers of the graph are shorter than the bound, in bytes. -/
structure Graph.TextsBelow (g : Graph) (bound : Nat) : Prop where
  name : (Bytes.ofText g.name).length < bound
  nodes : ∀ n ∈ g.nodes, (Bytes.ofText n.name).length < bound
  ports : ∀ n ∈ g.nodes, ∀ role, ∀ p ∈ n.ports role, (Bytes.ofText p.identifier).length < bound

def PortRef.TextsBelow (ref : PortRef) (bound : Nat) : Prop :=
  (Bytes.ofText ref.node).length < bound ∧ (Bytes.ofText ref.port).length < bound

def Link.TextsBelow (l : Link) (bound : Nat) : Prop :=
  l.origin.TextsBelow bound ∧ l.target.TextsBelow bound

namespace Graph.TextsBelow

variable {g : Graph} {bound : Nat}

theorem portRef (h : g.TextsBelow bound) {ref : PortRef} {role : PortRole} {p : Port}
    (hp : g.port ref role = .ok p) : ref.TextsBelow bound := by
  obtain ⟨n, hn, hport⟩ := port_eq_ok_iff.1 hp
  obtain ⟨hmem, hname⟩ := node?_eq_some hn
  obtain ⟨hpmem, hid⟩ := Node.port?_eq_some hport
  refine ⟨?_, ?_⟩
  · rw [← hname]
    exact h.nodes n hmem
  · rw [← hid]
    exact h.ports n hmem role p hpmem

theorem link (h : g.TextsBelow bound) (hg : g.WellFormed) {l : Link} (hl : l ∈ g.links) :
    l.TextsBelow bound := by
  obtain ⟨source, sink, hsource, hsink, -⟩ := (hg.links_wellFormed l hl).typed
  exact ⟨h.portRef hsource, h.portRef hsink⟩

theorem sortedLinks (h : g.TextsBelow bound) (hg : g.WellFormed) :
    ∀ l ∈ g.links.mergeSort Link.le, l.TextsBelow bound := by
  intro l hl
  exact h.link hg ((List.mergeSort_perm _ _).mem_iff.1 hl)

end Graph.TextsBelow

/-! ## Links -/

namespace Link

open Bytes

theorem TextsBelow.mono {l : Link} {bound bound' : Nat} (h : l.TextsBelow bound)
    (hle : bound ≤ bound') : l.TextsBelow bound' := by
  obtain ⟨⟨h₁, h₂⟩, h₃, h₄⟩ := h
  exact ⟨⟨h₁.trans_le hle, h₂.trans_le hle⟩, h₃.trans_le hle, h₄.trans_le hle⟩

theorem selfDelimiting_encoding :
    SelfDelimiting (fun l : Link => l.TextsBelow textLimit) encoding := by
  rintro ⟨⟨target, port⟩, origin, port'⟩ ⟨⟨target', port''⟩, origin', port'''⟩ x y
    ⟨⟨hk₁, hk₂⟩, hk₃, hk₄⟩ ⟨⟨hl₁, hl₂⟩, hl₃, hl₄⟩ h
  unfold encoding at h
  simp only [List.append_assoc] at h
  obtain ⟨rfl, h₁⟩ := selfDelimiting_ofSizedText hk₁ hl₁ h
  obtain ⟨rfl, h₂⟩ := selfDelimiting_ofSizedText hk₂ hl₂ h₁
  obtain ⟨rfl, h₃⟩ := selfDelimiting_ofSizedText hk₃ hl₃ h₂
  obtain ⟨rfl, h₄⟩ := selfDelimiting_ofSizedText hk₄ hl₄ h₃
  exact ⟨rfl, h₄⟩

theorem encoding_ne_nil (l : Link) : l.encoding ≠ [] := by
  unfold encoding
  simp [ofSizedText_ne_nil]

theorem eq_of_flatMap_encoding {ks ls : List Link} (hks : ∀ k ∈ ks, k.TextsBelow textLimit)
    (hls : ∀ l ∈ ls, l.TextsBelow textLimit)
    (h : ks.flatMap encoding = ls.flatMap encoding) : ks = ls :=
  selfDelimiting_encoding.eq_of_flatMap encoding_ne_nil hks hls h

end Link

end Dataflow
