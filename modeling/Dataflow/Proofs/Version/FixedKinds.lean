import Dataflow.Proofs.Unit.Records
import Dataflow.Proofs.Version.Decoding

/-!
# Versions of graphs of fixed kinds

A fixed kind is a stock kind whose ports follow from its settings. The encoding of a graph of
such kinds has no counts and no marks between its sections, yet it can be read in one way only:
the label of a kind gives away its settings and its ports, and where a kind stands, the bytes
read as a length are too large for a text of ordinary size, so a node is never taken for a link.
`Graph.encoding_eq_iff` concludes that the encoding identifies the structure of the graph.
-/

namespace Dataflow

open Bytes

/-- A stock kind with a fixed list of ports: every one but the graph input. -/
def Kind.IsFixed : Kind → Prop
  | graphInput _ | host _ => False
  | _ => True

/-- Texts of ordinary size are shorter than this, so two of the eight bytes of their lengths are
zero. -/
def ordinary : Nat := Nat.pow 2 48

theorem ordinary_le_textLimit : ordinary ≤ textLimit := by decide

theorem Bytes.ofSizedText_high_zero {s : String} (hs : (ofText s).length < ordinary) (x : Bytes) :
    (ofSizedText s ++ x)[6]? = some 0 ∧ (ofSizedText s ++ x)[7]? = some 0 := by
  have hlt : (ofText s).length < 281474976710656 := hs
  have hsix : (ofText s).length / 256 / 256 / 256 / 256 / 256 / 256 = 0 := by omega
  simp [ofSizedText, ofNat, hsix]

/-! ## Tags and values -/

theorem MathOp.tag_injective : Function.Injective MathOp.tag := by
  intro s t
  cases s <;> cases t <;> decide

theorem CompareOp.tag_injective : Function.Injective CompareOp.tag := by
  intro s t
  cases s <;> cases t <;> decide

theorem DataType.tag_ne_zero (ty : DataType) : ty.tag ≠ 0 := by
  cases ty <;> decide

theorem Value.toBytes_append_inj {v w : Value} {x y : Bytes} (hty : v.dataType = w.dataType)
    (h : v.toBytes ++ x = w.toBytes ++ y) : v = w ∧ x = y := by
  have hlength : v.toBytes.length = w.toBytes.length := by
    have hv := v.length_toBytes
    rw [hty, w.length_toBytes] at hv
    exact (Option.some.inj hv).symm
  obtain ⟨hbytes, hxy⟩ := List.append_inj h hlength
  have hv := v.ofBytes?_toBytes
  rw [hty, hbytes, w.ofBytes?_toBytes] at hv
  exact ⟨(Option.some.inj hv).symm, hxy⟩

/-! ## Kinds -/

namespace Kind

variable {k l : Kind} {x y : Bytes}

def fixedNames : List String := ["reroute", "math", "constant", "compare", "select", "clamp"]

/-- What the fingerprint of a fixed kind says behind the label. -/
def settings : Kind → Bytes
  | reroute ty | select ty | clamp ty => [ty.tag]
  | math op ty => [op.tag, ty.tag]
  | compare op ty => [op.tag, ty.tag]
  | constant v => v.dataType.tag :: v.toBytes
  | graphInput _ | host _ => []

theorem IsFixed.name_mem (hk : k.IsFixed) : k.name ∈ fixedNames := by
  cases k with
  | graphInput outputs => contradiction
  | host kind => contradiction
  | _ => simp [name, fixedNames]

theorem IsFixed.encoding_eq (hk : k.IsFixed) :
    k.encoding = ofText k.name ++ (k.settings ++ (k.inputs.flatMap (PortSpec.encoding .input)
      ++ k.outputs.flatMap (PortSpec.encoding .output))) := by
  have hprint : k.fingerprint = ofText k.name ++ k.settings := by
    cases k with
    | graphInput outputs => contradiction
    | host kind => contradiction
    | _ => rfl
  rw [encoding, hprint]
  simp only [List.append_assoc]

/-- Three bytes are enough to tell the labels apart. -/
theorem eq_of_take_label : ∀ s ∈ fixedNames, ∀ t ∈ fixedNames,
    (ofText s).take 3 = (ofText t).take 3 → s = t := by
  decide

theorem three_le_length_label : ∀ s ∈ fixedNames, 3 ≤ (ofText s).length := by
  decide

theorem name_eq_of_encoding (hk : k.IsFixed) (hl : l.IsFixed)
    (h : k.encoding ++ x = l.encoding ++ y) : k.name = l.name := by
  apply eq_of_take_label _ hk.name_mem _ hl.name_mem
  rw [hk.encoding_eq, hl.encoding_eq] at h
  simp only [List.append_assoc] at h
  have htake := congrArg (List.take 3) h
  rwa [List.take_append_of_le_length (three_le_length_label _ hk.name_mem),
    List.take_append_of_le_length (three_le_length_label _ hl.name_mem)] at htake

/-- The settings tell kinds of one label apart. -/
theorem settings_append_inj (hk : k.IsFixed) (hl : l.IsFixed) (hname : k.name = l.name)
    (h : k.settings ++ x = l.settings ++ y) : k = l ∧ x = y := by
  cases k with
  | graphInput outputs => contradiction
  | host kind => contradiction
  | reroute ty =>
      cases l with
      | reroute ty' =>
          obtain ⟨htag, hxy⟩ := List.cons.inj h
          exact ⟨congrArg reroute (DataType.tag_injective htag), hxy⟩
      | _ => first | contradiction | simp [name] at hname
  | select ty =>
      cases l with
      | select ty' =>
          obtain ⟨htag, hxy⟩ := List.cons.inj h
          exact ⟨congrArg select (DataType.tag_injective htag), hxy⟩
      | _ => first | contradiction | simp [name] at hname
  | clamp ty =>
      cases l with
      | clamp ty' =>
          obtain ⟨htag, hxy⟩ := List.cons.inj h
          exact ⟨congrArg clamp (DataType.tag_injective htag), hxy⟩
      | _ => first | contradiction | simp [name] at hname
  | math op ty =>
      cases l with
      | math op' ty' =>
          obtain ⟨hop, h₁⟩ := List.cons.inj h
          obtain ⟨htag, hxy⟩ := List.cons.inj h₁
          exact ⟨congrArg₂ math (MathOp.tag_injective hop) (DataType.tag_injective htag), hxy⟩
      | _ => first | contradiction | simp [name] at hname
  | compare op ty =>
      cases l with
      | compare op' ty' =>
          obtain ⟨hop, h₁⟩ := List.cons.inj h
          obtain ⟨htag, hxy⟩ := List.cons.inj h₁
          exact ⟨congrArg₂ compare (CompareOp.tag_injective hop) (DataType.tag_injective htag),
            hxy⟩
      | _ => first | contradiction | simp [name] at hname
  | constant v =>
      cases l with
      | constant w =>
          obtain ⟨htag, h₁⟩ := List.cons.inj h
          obtain ⟨hvw, hxy⟩ := Value.toBytes_append_inj (DataType.tag_injective htag) h₁
          exact ⟨congrArg constant hvw, hxy⟩
      | _ => first | contradiction | simp [name] at hname

theorem selfDelimiting_encoding : SelfDelimiting IsFixed encoding := by
  intro k l x y hk hl h
  have hname := name_eq_of_encoding hk hl h
  rw [hk.encoding_eq, hl.encoding_eq, hname] at h
  simp only [List.append_assoc] at h
  obtain ⟨rfl, hports⟩ := settings_append_inj hk hl hname (List.append_cancel_left h)
  exact ⟨rfl, List.append_cancel_left (List.append_cancel_left hports)⟩

/-- Where a fixed kind stands, no ordinary text does. -/
theorem encoding_ne_ofSizedText (hk : k.IsFixed) {s : String}
    (hs : (ofText s).length < ordinary) : k.encoding ++ x ≠ ofSizedText s ++ y := by
  intro h
  obtain ⟨hsix, hseven⟩ := ofSizedText_high_zero hs y
  rw [← h, hk.encoding_eq] at hsix hseven
  cases k with
  | graphInput outputs => contradiction
  | host kind => contradiction
  -- Seven letters and more reach into the high bytes of a length by themselves.
  | reroute ty =>
      simp [name, show ofText "reroute" = [114, 101, 114, 111, 117, 116, 101] by decide] at hsix
  | constant v =>
      simp [name, show ofText "constant" = [99, 111, 110, 115, 116, 97, 110, 116] by decide] at hsix
  | compare op ty =>
      simp [name, show ofText "compare" = [99, 111, 109, 112, 97, 114, 101] by decide] at hsix
  -- Shorter labels do so together with the settings and the type of the first input.
  | math op ty =>
      simp [name, show ofText "math" = [109, 97, 116, 104] by decide, settings, inputs,
        PortSpec.encoding, ty.tag_ne_zero] at hseven
  | select ty =>
      simp [name, show ofText "select" = [115, 101, 108, 101, 99, 116] by decide, settings,
        ty.tag_ne_zero] at hsix
  | clamp ty =>
      simp [name, show ofText "clamp" = [99, 108, 97, 109, 112] by decide, settings, inputs,
        PortSpec.encoding, ty.tag_ne_zero] at hseven

end Kind

/-! ## Nodes and links -/

/-- A node of a fixed kind with a name of ordinary size. -/
def IsOrdinary (id : String × Kind) : Prop := (ofText id.1).length < ordinary ∧ id.2.IsFixed

theorem selfDelimiting_encodeIdentity : SelfDelimiting IsOrdinary encodeIdentity := by
  rintro ⟨name, kind⟩ ⟨name', kind'⟩ x y ⟨hname, hkind⟩ ⟨hname', hkind'⟩ h
  unfold encodeIdentity at h
  rw [List.append_assoc, List.append_assoc] at h
  obtain ⟨rfl, hkinds⟩ := selfDelimiting_ofSizedText (hname.trans_le ordinary_le_textLimit)
    (hname'.trans_le ordinary_le_textLimit) h
  obtain ⟨rfl, hxy⟩ := Kind.selfDelimiting_encoding hkind hkind' hkinds
  exact ⟨rfl, hxy⟩

/-- Behind the first text of a node stands a kind, behind the first text of a link another text. -/
theorem encodeIdentity_append_ne_links {id : String × Kind} (hid : IsOrdinary id)
    {ls : List Link} (hls : ∀ l ∈ ls, l.TextsBelow ordinary) (x : Bytes) :
    encodeIdentity id ++ x ≠ ls.flatMap Link.encoding := by
  intro h
  unfold encodeIdentity at h
  cases ls with
  | nil => simp [ofSizedText_ne_nil] at h
  | cons l ls =>
      obtain ⟨⟨hnode, hport⟩, -⟩ := hls l List.mem_cons_self
      rw [List.flatMap_cons, Link.encoding] at h
      simp only [List.append_assoc] at h
      obtain ⟨-, hrest⟩ := selfDelimiting_ofSizedText (hid.1.trans_le ordinary_le_textLimit)
        (hnode.trans_le ordinary_le_textLimit) h
      exact Kind.encoding_ne_ofSizedText hid.2 hport hrest

/-- The nodes and the links can be told apart, although nothing stands between them. -/
theorem eq_of_sections_eq {ids ids' : List (String × Kind)} {ks ls : List Link}
    (hids : ∀ id ∈ ids, IsOrdinary id) (hids' : ∀ id ∈ ids', IsOrdinary id)
    (hks : ∀ k ∈ ks, k.TextsBelow ordinary) (hls : ∀ l ∈ ls, l.TextsBelow ordinary)
    (h : ids.flatMap encodeIdentity ++ ks.flatMap Link.encoding =
      ids'.flatMap encodeIdentity ++ ls.flatMap Link.encoding) : ids = ids' ∧ ks = ls := by
  induction ids generalizing ids' with
  | nil =>
      cases ids' with
      | nil =>
          have hlimit : ∀ {l : Link}, l.TextsBelow ordinary → l.TextsBelow textLimit :=
            fun hl => hl.mono ordinary_le_textLimit
          exact ⟨rfl, Link.eq_of_flatMap_encoding (fun k hk => hlimit (hks k hk))
            (fun l hl => hlimit (hls l hl)) h⟩
      | cons id ids' =>
          rw [List.flatMap_cons, List.append_assoc] at h
          exact absurd h.symm (encodeIdentity_append_ne_links (hids' id List.mem_cons_self) hks _)
  | cons id ids ih =>
      rw [List.flatMap_cons, List.append_assoc] at h
      cases ids' with
      | nil => exact absurd h (encodeIdentity_append_ne_links (hids id List.mem_cons_self) hls _)
      | cons id' ids' =>
          rw [List.flatMap_cons, List.append_assoc] at h
          obtain ⟨rfl, hrest⟩ := selfDelimiting_encodeIdentity (hids id List.mem_cons_self)
            (hids' id' List.mem_cons_self) h
          obtain ⟨rfl, hlinks⟩ := ih (fun j hj => hids j (List.mem_cons_of_mem _ hj))
            (fun j hj => hids' j (List.mem_cons_of_mem _ hj)) hrest
          exact ⟨rfl, hlinks⟩

namespace Graph

variable {g h : Graph}

theorem isOrdinary_of_mem (hkinds : ∀ n ∈ g.nodes, n.kind.IsFixed)
    (htexts : g.TextsBelow ordinary) : ∀ id ∈ g.nodes.map Node.identity, IsOrdinary id := by
  intro id hid
  obtain ⟨n, hn, rfl⟩ := List.mem_map.1 hid
  exact ⟨htexts.nodes n hn, hkinds n hn⟩

/-- The version of a graph is the digest of its encoding, and of graphs of fixed kinds with texts
of ordinary size those have equal encodings that have the same structure. -/
theorem encoding_eq_iff (hg : g.Reachable) (hh : h.Reachable)
    (hgkinds : ∀ n ∈ g.nodes, n.kind.IsFixed) (hhkinds : ∀ n ∈ h.nodes, n.kind.IsFixed)
    (hgtexts : g.TextsBelow ordinary) (hhtexts : h.TextsBelow ordinary) :
    (g.version = .ofStream g.encoding ∧ h.version = .ofStream h.encoding) ∧
      (g.encoding = h.encoding ↔ g.SameStructure h) := by
  refine ⟨⟨hg.version_eq, hh.version_eq⟩, ?_, SameStructure.encoding_eq hg hh⟩
  intro hencoding
  rw [hg.encoding_eq, hh.encoding_eq] at hencoding
  obtain ⟨hname, hsections⟩ := selfDelimiting_ofSizedText
    (hgtexts.name.trans_le ordinary_le_textLimit) (hhtexts.name.trans_le ordinary_le_textLimit)
    hencoding
  obtain ⟨hnodes, hlinks⟩ := eq_of_sections_eq (isOrdinary_of_mem hgkinds hgtexts)
    (isOrdinary_of_mem hhkinds hhtexts) (hgtexts.sortedLinks hg.wellFormed)
    (hhtexts.sortedLinks hh.wellFormed) hsections
  exact ⟨hname, hnodes, (sortedLinks_eq_iff hg.wellFormed.targets_nodup
    hh.wellFormed.targets_nodup).1 hlinks⟩

end Graph

/-! ## A constant that is doubled -/

namespace DoubledConstant

def one : Node := ⟨"one", .constant (.i32 1), [], [⟨"value", .i32, none⟩]⟩

/-- The sum with an authored value at its first input. -/
def sum (authored : BitVec 32) : Node :=
  ⟨"sum", .math .add .i32, [⟨"a", .i32, some (.i32 authored)⟩, ⟨"b", .i32, some (.i32 0)⟩],
    [⟨"result", .i32, none⟩]⟩

def toFirst : Link := ⟨⟨"sum", "a"⟩, ⟨"one", "value"⟩⟩

def toSecond : Link := ⟨⟨"sum", "b"⟩, ⟨"one", "value"⟩⟩

def graph (authored : BitVec 32) (links : List Link) : Graph :=
  ⟨"doubled", [one, sum authored], links, none⟩

theorem reachable_nodes : (graph 0 []).Reachable := by
  have h₁ : Graph.Reachable ⟨"doubled", [one], [], none⟩ :=
    .addNode (.empty _) (show (Graph.empty "doubled").addNode "one" one.kind =
      .ok (one, _) from rfl)
  exact .addNode h₁ (show Graph.addNode _ "sum" (sum 0).kind = .ok (sum 0, _) from rfl)

theorem reachable_forwards : (graph 0 [toFirst, toSecond]).Reachable := by
  have h₁ : (graph 0 [toFirst]).Reachable := .link reachable_nodes
    (show Graph.link _ ⟨"one", "value"⟩ ⟨"sum", "a"⟩ = .ok (none, _) from rfl)
  exact .link h₁ (show Graph.link _ ⟨"one", "value"⟩ ⟨"sum", "b"⟩ = .ok (none, _) from rfl)

theorem reachable_backwards : (graph 7 [toSecond, toFirst]).Reachable := by
  have h₁ : (graph 7 []).Reachable := .setInputValue reachable_nodes
    (show Graph.setInputValue _ ⟨"sum", "a"⟩ (.i32 7) = .ok _ from rfl)
  have h₂ : (graph 7 [toSecond]).Reachable := .link h₁
    (show Graph.link _ ⟨"one", "value"⟩ ⟨"sum", "b"⟩ = .ok (none, _) from rfl)
  exact .link h₂ (show Graph.link _ ⟨"one", "value"⟩ ⟨"sum", "a"⟩ = .ok (none, _) from rfl)

theorem isFixed (authored : BitVec 32) (links : List Link) :
    ∀ n ∈ (graph authored links).nodes, n.kind.IsFixed := by
  simp [graph, one, sum, Kind.IsFixed]

theorem textsBelow (authored : BitVec 32) (links : List Link) :
    (graph authored links).TextsBelow ordinary := by
  refine ⟨?_, ?_, ?_⟩
  · simp only [graph]
    decide
  · simp only [graph, List.forall_mem_cons]
    exact ⟨by decide, by simp only [sum]; decide, by simp⟩
  · simp only [graph, List.forall_mem_cons]
    refine ⟨?_, ?_, by simp⟩
    · rintro (_ | _) <;> decide
    · rintro (_ | _)
      · simp only [sum, Node.ports, List.forall_mem_cons]
        decide
      · simp only [sum, Node.ports, List.forall_mem_cons]
        decide

theorem linkOrigin?_swapped (target : PortRef) :
    (graph 0 [toFirst, toSecond]).linkOrigin? target =
      (graph 7 [toSecond, toFirst]).linkOrigin? target := by
  by_cases hfirst : toFirst.target = target
  · subst hfirst
    rfl
  · by_cases hsecond : toSecond.target = target
    · subst hsecond
      rfl
    · simp [Graph.linkOrigin?, graph, hfirst, hsecond]

/-- Links made in another order and an authored value change the graph but not its encoding. -/
theorem encoding_eq_iff_doubled :
    graph 0 [toFirst, toSecond] ≠ graph 7 [toSecond, toFirst] ∧
      (graph 0 [toFirst, toSecond]).encoding = (graph 7 [toSecond, toFirst]).encoding := by
  refine ⟨by decide, ?_⟩
  have hsame : (graph 0 [toFirst, toSecond]).SameStructure (graph 7 [toSecond, toFirst]) :=
    ⟨rfl, rfl, linkOrigin?_swapped⟩
  exact (Graph.encoding_eq_iff reachable_forwards reachable_backwards (isFixed _ _) (isFixed _ _)
    (textsBelow _ _) (textsBelow _ _)).2.2 hsame

end DoubledConstant

end Dataflow
