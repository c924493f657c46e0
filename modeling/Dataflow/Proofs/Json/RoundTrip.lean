import Dataflow.Proofs.Json.Rearranged
import Dataflow.Proofs.Json.Values

/-!
# Round trips through JSON

The text of a value is read as the same value again. For a structure this is so for every text of
every object that has the fields in another order and further fields, on each level.
-/

namespace Dataflow

section Forms

variable {α : Type} [JsonForm α]

/-- The text of `x`, and every other text of its form, is read as `x`. -/
structure RoundTrips (x : α) : Prop where
  printed : ofJsonText? (toJsonText x) = some x
  respelled (text : String) : (JsonForm.encode x).IsText text → ofJsonText? text = some x

/-- The text of `x`, and every text of its form rearranged, is read as `x`. -/
structure RoundTripsRearranged (x : α) : Prop where
  printed : ofJsonText? (toJsonText x) = some x
  rearranged (j : Json) (text : String) : j.Covers (JsonForm.encode x) → j.IsText text →
    ofJsonText? text = some x

/-- The form of `x`, whatever its objects are rearranged to, stands for `x`. -/
def DecodesRearranged (x : α) : Prop :=
  ∀ j : Json, j.Covers (JsonForm.encode x) → JsonForm.decode j = some x

variable {x : α}

theorem ofJsonText?_of_isText {j : Json} {text : String} (h : j.IsText text) :
    (ofJsonText? text : Option α) = JsonForm.decode j := by
  simp [ofJsonText?, Json.parse?_of_isText h]

theorem ofJsonText?_toJsonText (h : (JsonForm.encode x).Printable) :
    ofJsonText? (toJsonText x) = (JsonForm.decode (JsonForm.encode x) : Option α) :=
  ofJsonText?_of_isText (Json.isText_compact h)

theorem roundTrips_of_decode (hform : (JsonForm.encode x).Printable)
    (hdecode : JsonForm.decode (JsonForm.encode x) = some x) : RoundTrips x where
  printed := (ofJsonText?_toJsonText hform).trans hdecode
  respelled _ htext := (ofJsonText?_of_isText htext).trans hdecode

theorem roundTripsRearranged_of_decodes (hform : (JsonForm.encode x).Printable)
    (hdecode : DecodesRearranged x) : RoundTripsRearranged x where
  printed := (ofJsonText?_toJsonText hform).trans (hdecode _ (.refl _))
  rearranged j _ hj htext := (ofJsonText?_of_isText htext).trans (hdecode j hj)

theorem toList?_of_covers {xs : List α} (hxs : ∀ x ∈ xs, DecodesRearranged x) {j : Json}
    (h : j.Covers (.ofList xs)) : j.toList? = some xs := by
  obtain ⟨items, rfl, hitems⟩ := Json.exists_of_covers_array h
  apply Json.mapM_of_forall₂
  rw [List.forall₂_map_right_iff] at hitems
  clear h
  induction hitems with
  | nil => exact .nil
  | cons hitem hothers ih =>
      obtain ⟨hx, hxs⟩ := List.forall_mem_cons.1 hxs
      exact .cons (hx _ hitem) (ih hxs)

theorem printable_ofList {xs : List α} (hxs : ∀ x ∈ xs, (JsonForm.encode x).Printable) :
    (Json.ofList xs).Printable := by
  refine .array fun item hitem => ?_
  obtain ⟨x, hx, rfl⟩ := List.mem_map.1 hitem
  exact hxs x hx

end Forms

/-! ## Integers -/

namespace Json

theorem printable_ofInt (i : Int) : (ofInt i).Printable := .number (Numeral.written_ofInt i)

theorem toInt?_ofInt (i : Int) : (ofInt i).toInt? = some i := Numeral.toInt?_ofInt i

theorem toNatBelow?_ofNat_iff {limit n m : Nat} :
    (ofNat n).toNatBelow? limit = some m ↔ n < limit ∧ n = m := by
  unfold toNatBelow? toIntIn? ofNat
  rw [toInt?_ofInt]
  by_cases h : n < limit
  · simp [h]
  · simp [h]

theorem toSigned?_ofInt {bits : Nat} (x : BitVec bits) :
    (ofInt x.toInt).toSigned? bits = some x := by
  unfold toSigned? toIntIn? Numeral.signedLimit
  rw [toInt?_ofInt]
  have hlow : -((Nat.pow 2 (bits - 1) : Nat) : Int) ≤ x.toInt := by
    have := x.le_toInt
    simpa using this
  have hhigh : x.toInt < (Nat.pow 2 (bits - 1) : Nat) := by
    have := x.toInt_lt
    simpa using this
  rw [Option.bind_eq_bind, Option.bind_some, if_pos ⟨hlow, hhigh⟩, Option.map_some,
    BitVec.ofInt_toInt]

end Json

/-! ## Choices without contents -/

theorem DataType.find?_jsonName (ty : DataType) :
    all.find? (fun other => other.jsonName == ty.jsonName) = some ty := by
  cases ty <;> rfl

theorem OptLevel.find?_jsonName (level : OptLevel) :
    all.find? (fun other => other.jsonName == level.jsonName) = some level := by
  cases level <;> rfl

/-! ## Structures -/

theorem decodesRearranged_portRef (p : PortRef) : DecodesRearranged p := by
  intro j hj
  have hnames : ["node", "port"].Nodup := by decide
  obtain ⟨values, hfields, hvalues⟩ := Json.fields?_of_covers hnames hj rfl
  obtain _ | ⟨hnode, _ | ⟨hport, ⟨⟩⟩⟩ := hvalues
  rw [Json.eq_of_covers_text hnode, Json.eq_of_covers_text hport] at hfields
  simp [JsonForm.decode, hfields, Json.toText?, Json.text]

theorem decodesRearranged_portSpec (p : PortSpec) : DecodesRearranged p := by
  intro j hj
  have hnames : ["identifier", "data_type"].Nodup := by decide
  obtain ⟨values, hfields, hvalues⟩ := Json.fields?_of_covers hnames hj rfl
  obtain _ | ⟨hidentifier, _ | ⟨htype, ⟨⟩⟩⟩ := hvalues
  rw [Json.eq_of_covers_text hidentifier, Json.eq_of_covers_text htype] at hfields
  simp [JsonForm.decode, hfields, Json.toText?, Json.plainChoice?, Json.text,
    DataType.find?_jsonName]

theorem decodesRearranged_unitRequest (r : UnitRequest) : DecodesRearranged r := by
  intro j hj
  have hnames : ["outputs", "graph_inputs"].Nodup := by decide
  obtain ⟨values, hfields, hvalues⟩ := Json.fields?_of_covers hnames hj rfl
  obtain _ | ⟨houtputs, _ | ⟨hinputs, ⟨⟩⟩⟩ := hvalues
  have houtputs := toList?_of_covers (fun p _ => decodesRearranged_portRef p) houtputs
  have hinputs := toList?_of_covers (fun p _ => decodesRearranged_portRef p) hinputs
  simp [JsonForm.decode, hfields, houtputs, hinputs]

theorem decodesRearranged_options (o : Options) : DecodesRearranged o := by
  intro j hj
  have hnames : ["opt_level", "verify"].Nodup := by decide
  obtain ⟨values, hfields, hvalues⟩ := Json.fields?_of_covers hnames hj rfl
  obtain _ | ⟨hlevel, _ | ⟨hverify, ⟨⟩⟩⟩ := hvalues
  rw [Json.eq_of_covers_text hlevel, Json.eq_of_covers_bool hverify] at hfields
  simp [JsonForm.decode, hfields, Json.toBool?, Json.plainChoice?, Json.text,
    OptLevel.find?_jsonName]

/-- Counters are 64-bit words. -/
structure CacheStats.Fits (s : CacheStats) : Prop where
  hits : s.hits < Numeral.wordLimit
  misses : s.misses < Numeral.wordLimit
  compilations : s.compilations < Numeral.wordLimit
  globalsCompilations : s.globalsCompilations < Numeral.wordLimit

theorem fields?_of_covers_cacheStats {s : CacheStats} {j : Json}
    (h : j.Covers (JsonForm.encode s)) :
    j.fields? ["hits", "misses", "compilations", "globals_compilations"] =
      some [.ofNat s.hits, .ofNat s.misses, .ofNat s.compilations,
        .ofNat s.globalsCompilations] := by
  have hnames : ["hits", "misses", "compilations", "globals_compilations"].Nodup := by decide
  obtain ⟨values, hfields, hvalues⟩ := Json.fields?_of_covers hnames h rfl
  obtain _ | ⟨hhits, _ | ⟨hmisses, _ | ⟨hcompilations, _ | ⟨hglobals, ⟨⟩⟩⟩⟩⟩ := hvalues
  rw [hfields, Json.eq_of_covers_ofNat hhits, Json.eq_of_covers_ofNat hmisses,
    Json.eq_of_covers_ofNat hcompilations, Json.eq_of_covers_ofNat hglobals]

theorem decode_eq_some_iff_counters {s : CacheStats} {j : Json} {items : List Json}
    (h : j.fields? ["hits", "misses", "compilations", "globals_compilations"] = some items) :
    JsonForm.decode j = some s ↔ items.mapM (Json.toNatBelow? Numeral.wordLimit) =
      some [s.hits, s.misses, s.compilations, s.globalsCompilations] := by
  simp only [JsonForm.decode, h, Option.bind_eq_bind, Option.bind_some]
  generalize items.mapM (Json.toNatBelow? Numeral.wordLimit) = found
  constructor
  · intro h
    obtain ⟨counters, rfl, hread⟩ := Option.bind_eq_some_iff.1 h
    split at hread
    · cases hread
      rfl
    · contradiction
  · rintro rfl
    rfl

theorem decodesRearranged_cacheStats {s : CacheStats} (hs : s.Fits) : DecodesRearranged s := by
  intro j hj
  rw [decode_eq_some_iff_counters (fields?_of_covers_cacheStats hj)]
  apply Json.mapM_of_forall₂
  exact .cons (Json.toNatBelow?_ofNat_iff.2 ⟨hs.hits, rfl⟩)
    (.cons (Json.toNatBelow?_ofNat_iff.2 ⟨hs.misses, rfl⟩)
      (.cons (Json.toNatBelow?_ofNat_iff.2 ⟨hs.compilations, rfl⟩)
        (.cons (Json.toNatBelow?_ofNat_iff.2 ⟨hs.globalsCompilations, rfl⟩) .nil)))

/-- No other counters are read. -/
theorem fits_of_decode {s : CacheStats} (h : JsonForm.decode (JsonForm.encode s) = some s) :
    s.Fits := by
  rw [decode_eq_some_iff_counters (fields?_of_covers_cacheStats (.refl _))] at h
  obtain _ | ⟨hhits, _ | ⟨hmisses, _ | ⟨hcompilations, _ | ⟨hglobals, ⟨⟩⟩⟩⟩⟩ :=
    Json.forall₂_of_mapM h
  exact ⟨(Json.toNatBelow?_ofNat_iff.1 hhits).1, (Json.toNatBelow?_ofNat_iff.1 hmisses).1,
    (Json.toNatBelow?_ofNat_iff.1 hcompilations).1, (Json.toNatBelow?_ofNat_iff.1 hglobals).1⟩

/-! ## Arrays of bytes and values -/

theorem decode_version (v : Version) : JsonForm.decode (JsonForm.encode v) = some v := by
  have hbytes : (v.bytes.toList.map fun b => Json.ofNat b.toNat).mapM
      (fun item => (item.toNatBelow? 256).map UInt8.ofNat) = some v.bytes.toList := by
    rw [List.mapM_map]
    apply Json.mapM_of_forall₂
    rw [List.forall₂_same]
    intro b _
    have hb : (Json.ofNat b.toNat).toNatBelow? 256 = some b.toNat :=
      Json.toNatBelow?_ofNat_iff.2 ⟨b.toNat_lt, rfl⟩
    simp [hb]
  have hsize : v.bytes.toList.toArray.size = 32 := by simp
  simp only [JsonForm.decode, JsonForm.encode, hbytes, Option.bind_eq_bind, Option.bind_some]
  have hvector : Vector.mk v.bytes.toList.toArray hsize = v.bytes :=
    Vector.toArray_inj.1 Array.toArray_toList
  rw [dif_pos hsize, hvector]

theorem decode_i32 (x : BitVec 32) :
    JsonForm.decode (JsonForm.encode (Value.i32 x)) = some (Value.i32 x) := by
  simp [JsonForm.decode, JsonForm.encode, Json.choice?, Json.record, Json.toSigned?_ofInt]

theorem decode_i64 (x : BitVec 64) :
    JsonForm.decode (JsonForm.encode (Value.i64 x)) = some (Value.i64 x) := by
  simp [JsonForm.decode, JsonForm.encode, Json.choice?, Json.record, Json.toSigned?_ofInt]

theorem decode_bool (b : Bool) :
    JsonForm.decode (JsonForm.encode (Value.bool b)) = some (Value.bool b) := by
  simp [JsonForm.decode, JsonForm.encode, Json.choice?, Json.record, Json.toBool?]

/-! ## Printed forms -/

theorem printable_portRef (p : PortRef) : (JsonForm.encode p).Printable := by
  refine .record ?_
  simp only [List.forall_mem_cons]
  exact ⟨.text p.node, .text p.port, by simp⟩

theorem printable_portSpec (p : PortSpec) : (JsonForm.encode p).Printable := by
  refine .record ?_
  simp only [List.forall_mem_cons]
  exact ⟨.text p.identifier, .text p.dataType.jsonName, by simp⟩

theorem printable_unitRequest (r : UnitRequest) : (JsonForm.encode r).Printable := by
  refine .record ?_
  simp only [List.forall_mem_cons]
  exact ⟨printable_ofList fun p _ => printable_portRef p,
    printable_ofList fun p _ => printable_portRef p, by simp⟩

theorem printable_options (o : Options) : (JsonForm.encode o).Printable := by
  refine .record ?_
  simp only [List.forall_mem_cons]
  exact ⟨.text o.optLevel.jsonName, .bool o.verify, by simp⟩

theorem printable_cacheStats (s : CacheStats) : (JsonForm.encode s).Printable := by
  refine .record ?_
  simp only [List.forall_mem_cons]
  exact ⟨Json.printable_ofInt _, Json.printable_ofInt _, Json.printable_ofInt _,
    Json.printable_ofInt _, by simp⟩

theorem printable_version (v : Version) : (JsonForm.encode v).Printable := by
  refine .array fun item hitem => ?_
  obtain ⟨b, -, rfl⟩ := List.mem_map.1 hitem
  exact Json.printable_ofInt _

theorem printable_i32 (x : BitVec 32) : (JsonForm.encode (Value.i32 x)).Printable :=
  .record (List.forall_mem_singleton.2 (Json.printable_ofInt x.toInt))

theorem printable_i64 (x : BitVec 64) : (JsonForm.encode (Value.i64 x)).Printable :=
  .record (List.forall_mem_singleton.2 (Json.printable_ofInt x.toInt))

theorem printable_bool (b : Bool) : (JsonForm.encode (Value.bool b)).Printable :=
  .record (List.forall_mem_singleton.2 (.bool b))

/-! ## Round trips -/

/-- Ports, requests, options and counters of 64 bits are read again from their text and from every
text with the keys in another order and with unknown keys, and no other counters are; versions,
integers and truth values are read again from every text of theirs. -/
theorem json_round_trips :
    (∀ p : PortRef, RoundTripsRearranged p) ∧ (∀ p : PortSpec, RoundTripsRearranged p) ∧
      (∀ r : UnitRequest, RoundTripsRearranged r) ∧ (∀ o : Options, RoundTripsRearranged o) ∧
      (∀ s : CacheStats, RoundTripsRearranged s ↔ s.Fits) ∧ (∀ v : Version, RoundTrips v) ∧
      (∀ x, RoundTrips (Value.i32 x)) ∧ (∀ x, RoundTrips (Value.i64 x)) ∧
      ∀ b, RoundTrips (Value.bool b) := by
  refine ⟨fun p => ?_, fun p => ?_, fun r => ?_, fun o => ?_, fun s => ⟨fun h => ?_, fun h => ?_⟩,
    fun v => ?_, fun x => ?_, fun x => ?_, fun b => ?_⟩
  · exact roundTripsRearranged_of_decodes (printable_portRef p) (decodesRearranged_portRef p)
  · exact roundTripsRearranged_of_decodes (printable_portSpec p) (decodesRearranged_portSpec p)
  · exact roundTripsRearranged_of_decodes (printable_unitRequest r)
      (decodesRearranged_unitRequest r)
  · exact roundTripsRearranged_of_decodes (printable_options o) (decodesRearranged_options o)
  · exact fits_of_decode ((ofJsonText?_toJsonText (printable_cacheStats s)).symm.trans h.printed)
  · exact roundTripsRearranged_of_decodes (printable_cacheStats s) (decodesRearranged_cacheStats h)
  · exact roundTrips_of_decode (printable_version v) (decode_version v)
  · exact roundTrips_of_decode (printable_i32 x) (decode_i32 x)
  · exact roundTrips_of_decode (printable_i64 x) (decode_i64 x)
  · exact roundTrips_of_decode (printable_bool b) (decode_bool b)

example :
    ofJsonText? "\x7b \"port\":\"\\u000A\", \"x\":\"\\uD800\", \"node\":\"\\ud83d\\ude00\"\x7d" =
      some (⟨"😀", "\n"⟩ : PortRef) := by decide +kernel

/-! A request for a port with a quotation mark, a character past the first plane and control
characters in its names, out of objects in another order that hold more. -/

namespace HostileRequest

def port : PortRef := ⟨"\"\\😀", "\n\x00"⟩

def request : UnitRequest := ⟨[port], []⟩

def rearrangedPort : Json :=
  .record [("port", .text port.port), ("", .record []), ("node", .text port.node)]

def rearranged : Json :=
  .record [("graph_inputs", .array []), ("\x7d", .array [.null, .bool true, .ofInt (-7)]),
    ("outputs", .array [rearrangedPort])]

/-- The field in the end comes first. -/
theorem rotate_perm {α : Type} (a b c : α) : [a, b, c].Perm ([c, a] ++ [b]) :=
  (List.perm_append_comm : ([a, b] ++ [c]).Perm ([c] ++ [a, b]))

theorem covers_port : rearrangedPort.Covers (JsonForm.encode port) :=
  Json.covers_record (rotate_perm _ _ _) rfl (.cons (.refl _) (.cons (.refl _) .nil)) (by decide)

theorem covers : rearranged.Covers (JsonForm.encode request) := by
  have hports : (Json.array [rearrangedPort]).Covers (.ofList request.outputs) :=
    .array (.cons covers_port .nil)
  exact Json.covers_record (rotate_perm _ _ _) rfl (.cons hports (.cons (.refl _) .nil)) (by decide)

theorem printable_port : rearrangedPort.Printable := by
  refine .record ?_
  simp only [List.forall_mem_cons]
  exact ⟨.text _, .record (List.forall_mem_nil _), .text _, List.forall_mem_nil _⟩

theorem printable : rearranged.Printable := by
  refine .record ?_
  simp only [List.forall_mem_cons]
  refine ⟨.array (List.forall_mem_nil _), .array ?_, .array ?_, List.forall_mem_nil _⟩
  · simp only [List.forall_mem_cons]
    exact ⟨.null, .bool true, Json.printable_ofInt (-7), List.forall_mem_nil _⟩
  · exact List.forall_mem_singleton.2 printable_port

theorem json_round_trips_hostileRequest :
    rearranged.Covers (JsonForm.encode request) ∧ rearranged.IsText rearranged.compact ∧
      ofJsonText? rearranged.compact = some request := by
  have hrequest : RoundTripsRearranged request := json_round_trips.2.2.1 request
  have htext := Json.isText_compact printable
  exact ⟨covers, htext, hrequest.rearranged rearranged _ covers htext⟩

end HostileRequest

end Dataflow
