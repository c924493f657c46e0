import Dataflow.Proofs.Index.DataOrigins
import Dataflow.Proofs.Unit.Planning

/-!
# Requested outputs and linked inputs

A request for an output is answered with the port whose data the inputs linked to that output
read. The request goes up through reroutes from the output, the index from the input, and both
stop at one port or at none. Where there is none the request is refused, while the input falls
back on its cell.
-/

namespace Dataflow

variable {g : Graph} {port target : PortRef} {ty : DataType}

/-- Of an output that can be handed over, only the reroutes above it decide the answer. -/
theorem resolveOutput_eq (houtput : g.HasOutput port ty) (hnative : ty ≠ .handle) :
    resolveOutput g (Index.build g) port =
      match g.resolveFrom? g.rerouteNames port with
      | some source => .ok (source, ty)
      | none => .error (.rerouteRequest port) := by
  obtain ⟨native, hty⟩ := DataType.exists_native_iff.2 hnative
  have hfollow := followReroutes_build g port g.rerouteNames port
  change followReroutes g (Index.build g) port (Index.build g).reroutes port = _ at hfollow
  unfold resolveOutput
  rw [outputType_eq_ok_iff.2 houtput]
  simp only [bind, Except.bind, nativeType_eq_ok_iff.2 hty, hfollow]
  cases g.resolveFrom? g.rerouteNames port with
  | none => rfl
  | some source => rfl

/-- Of the input of a computing node, only the reroutes above its link decide the origin. -/
theorem Index.dataOrigin?_of_link (hg : g.WellFormed) (hcomputes : target.node ∉ g.rerouteNames)
    (hlink : (⟨target, port⟩ : Link) ∈ g.links) :
    (Index.build g).dataOrigin? target = g.resolveFrom? g.rerouteNames port := by
  rw [Index.dataOrigin?_build, Graph.resolve?, if_neg (by simpa using hcomputes),
    hg.linkOrigin?_eq_some_iff.2 hlink, Option.bind_some]

/-- A request for an output and an input linked to the output lead to the same port, or both lead
nowhere. An output of a computing node is its own source. -/
theorem resolveOutput_agrees_with_input (hg : g.Reachable) {n : Node} (hn : n ∈ g.nodes)
    (hcomputes : n.isReroute = false) {p : Port}
    (hlink : (⟨n.portRef p, port⟩ : Link) ∈ g.links) (houtput : g.HasOutput port ty)
    (hnative : ty ≠ .handle) :
    (∀ source, (∃ ty', resolveOutput g (Index.build g) port = .ok (source, ty')) ↔
      (Index.build g).dataOrigin? (n.portRef p) = some source) ∧
    (resolveOutput g (Index.build g) port = .error (.rerouteRequest port) ↔
      (Index.build g).dataOrigin? (n.portRef p) = none) ∧
    (port.node ∉ g.rerouteNames →
      resolveOutput g (Index.build g) port = .ok (port, ty) ∧
      (Index.build g).dataOrigin? (n.portRef p) = some port) := by
  have hwell := hg.wellFormed
  have hfree : (n.portRef p).node ∉ g.rerouteNames := hwell.not_mem_rerouteNames hn hcomputes
  rw [resolveOutput_eq houtput hnative, Index.dataOrigin?_of_link hwell hfree hlink]
  refine ⟨fun source => ?_, ?_, fun hport => ?_⟩
  · cases g.resolveFrom? g.rerouteNames port with
    | none => simp
    | some found => simp
  · cases g.resolveFrom? g.rerouteNames port with
    | none => simp
    | some found => simp
  · rw [Graph.resolveFrom?_eq_some_iff.2 ⟨0, .here hport⟩]
    exact ⟨rfl, rfl⟩

namespace RingedSum

/-- The sum reads the constant through one reroute; the ring that it is linked to besides can
neither be read nor requested. -/
theorem resolveOutput_agrees_with_input_ringedSum : graph.Reachable ∧ sum ∈ graph.nodes ∧
    (∃ ty, resolveOutput graph (Index.build graph) ⟨"fork", "out"⟩ =
      .ok (⟨"source", "value"⟩, ty)) ∧
    (Index.build graph).dataOrigin? ⟨"sum", "a"⟩ = some ⟨"source", "value"⟩ ∧
    resolveOutput graph (Index.build graph) ⟨"left", "output"⟩ =
      .error (.rerouteRequest ⟨"left", "output"⟩) ∧
    (Index.build graph).dataOrigin? ⟨"sum", "b"⟩ = none := by
  have hsum : sum ∈ graph.nodes := by decide
  have hfork : graph.HasOutput ⟨"fork", "out"⟩ .i32 := ⟨⟨"out", .i32, none⟩, rfl, rfl⟩
  have hleft : graph.HasOutput ⟨"left", "output"⟩ .i32 := ⟨⟨"output", .i32, none⟩, rfl, rfl⟩
  obtain ⟨hfed, -, -⟩ := resolveOutput_agrees_with_input reachable hsum rfl
    (p := ⟨"a", .i32, none⟩) (by decide) hfork (by decide)
  obtain ⟨-, hring, -⟩ := resolveOutput_agrees_with_input reachable hsum rfl
    (p := ⟨"b", .i32, none⟩) (by decide) hleft (by decide)
  have hwell := reachable.wellFormed
  have horigin : (Index.build graph).dataOrigin? ⟨"sum", "a"⟩ = some ⟨"source", "value"⟩ := by
    rw [Index.dataOrigin?_build, Graph.resolve?_eq_some_iff,
      ← Graph.drawsFrom_iff_hasOrigin hwell (by decide)]
    exact drawsFrom_source
  have hnone : (Index.build graph).dataOrigin? ⟨"sum", "b"⟩ = none := by
    rw [Index.dataOrigin?_build, Graph.resolve?_eq_none_iff hwell (by decide)]
    exact .circular (climbs_ring (by decide)) (by decide)
  exact ⟨reachable, hsum, (hfed _).2 horigin, horigin, hring.2 hnone, hnone⟩

end RingedSum

end Dataflow
