import Dataflow.Proofs.Record.Access
import Mathlib.Order.Bounds.Basic

/-!
# Layouts and what records hold

`RecordLayout.LaysOut` says which layout a list of types has, by least multiples of alignments,
and `RecordLayout.Stores` what a record of a layout holds after any sequence of writes. Both are
carried by one step: `Placed.place` puts one more field behind the others, and a write of a value
of the field's type changes the bytes of that field alone.
-/

namespace Dataflow

theorem isLeast_alignUp (n : Nat) {align : Nat} (h : 0 < align) :
    IsLeast {m | align ∣ m ∧ n ≤ m} (alignUp n align) := by
  refine ⟨⟨Nat.dvd_mul_left _ _, le_alignUp n align h⟩, ?_⟩
  rintro m ⟨⟨k, rfl⟩, hk⟩
  have hquotient : (n + align - 1) / align < k + 1 := by
    apply Nat.div_lt_of_lt_mul
    rw [Nat.mul_add_one]
    omega
  calc alignUp n align ≤ k * align := Nat.mul_le_mul_right align (Nat.le_of_lt_succ hquotient)
    _ = align * k := Nat.mul_comm k align

theorem DataType.size_eq_none_iff {ty : DataType} : ty.size = none ↔ ty = .handle := by
  cases ty <;> simp [DataType.size]

/-- A value is found again in front of any other bytes. -/
theorem Value.ofBytes?_of_take {v : Value} {bs : Bytes}
    (h : bs.take v.toBytes.length = v.toBytes) : ofBytes? v.dataType bs = some v := by
  have hscalar := v.isScalar_word v.native_dataType
  rw [← v.ofWord?_word]
  refine ofBytes?_image v.native_dataType hscalar ?_
  rw [← hscalar.length_image, v.image_word, h]

/-- Reading a value looks at the first bytes alone. -/
theorem Value.ofBytes?_congr {ty : DataType} {bs bs' : Bytes}
    (h : bs.take (ty.size.getD 0) = bs'.take (ty.size.getD 0)) :
    ofBytes? ty bs = ofBytes? ty bs' := by
  cases hsize : ty.size with
  | none => simp only [ofBytes?, hsize, Option.bind_eq_bind, Option.bind_none]
  | some size =>
      rw [hsize, Option.getD_some] at h
      have hlength := congrArg List.length h
      rw [List.length_take, List.length_take] at hlength
      have hslice : bs.slice? 0 size = bs'.slice? 0 size := by
        unfold Bytes.slice?
        rw [List.drop_zero, List.drop_zero, h]
        exact if_congr (by omega) rfl rfl
      simp only [ofBytes?, hsize, Option.bind_eq_bind, Option.bind_some, hslice]

theorem DataType.exists_zero {ty : DataType} {size : Nat} (hsize : ty.size = some size) :
    ∃ v, ty.zero = some v ∧ v.dataType = ty ∧ v.toBytes = List.replicate size 0 := by
  cases ty <;> cases hsize <;> exact ⟨_, rfl, rfl, by decide⟩

namespace RecordLayout

/-! ## Where the fields lie -/

/-- The end of the field before position `i`; the first field starts at the front. -/
def stopBefore (fields : List Field) : Nat → Nat
  | 0 => 0
  | i + 1 => (fields[i]?.map Field.stop).getD 0

theorem stopBefore_append {fields : List Field} {i : Nat} (h : i ≤ fields.length) (f : Field) :
    stopBefore (fields ++ [f]) i = stopBefore fields i := by
  cases i with
  | zero => rfl
  | succ i => rw [stopBefore, stopBefore, List.getElem?_append_left h]

theorem stopBefore_length_append (fields : List Field) (f : Field) :
    stopBefore (fields ++ [f]) (fields ++ [f]).length = f.stop := by
  simp [stopBefore]

/-- The layout of a list of types: each field stands as early as its alignment lets it, and the
record ends as early as the alignment of the whole lets it. -/
structure LaysOut (layout : RecordLayout) (types : List DataType) : Prop where
  dataTypes_eq : layout.fields.map Field.dataType = types
  native : .handle ∉ types
  offset_least {i align : Nat} {f : Field} : layout.fields[i]? = some f →
    f.dataType.align = some align →
      IsLeast {n | align ∣ n ∧ stopBefore layout.fields i ≤ n} f.offset
  apart : layout.fields.Pairwise fun a b => a.stop ≤ b.offset
  align_of_empty : types = [] → layout.align = 1
  align_greatest : types ≠ [] → IsGreatest {a | ∃ ty ∈ types, ty.align = some a} layout.align
  size_least : IsLeast {n | layout.align ∣ n ∧ ∀ f ∈ layout.fields, f.stop ≤ n} layout.size

/-- The fields that are placed so far, before the size is rounded up. -/
structure Placed (layout : RecordLayout) : Prop where
  packed : layout.Packed
  native : ∀ f ∈ layout.fields, f.dataType ≠ .handle
  offset_least {i align : Nat} {f : Field} : layout.fields[i]? = some f →
    f.dataType.align = some align →
      IsLeast {n | align ∣ n ∧ stopBefore layout.fields i ≤ n} f.offset
  align_greatest :
    IsGreatest (insert 1 {a | ∃ f ∈ layout.fields, f.dataType.align = some a}) layout.align
  size_eq : layout.size = stopBefore layout.fields layout.fields.length

variable {layout : RecordLayout} {types : List DataType}

theorem placed_empty : (⟨[], 0, 1⟩ : RecordLayout).Placed where
  packed := ⟨List.Pairwise.nil, by simp, Nat.one_pos⟩
  native := by simp
  offset_least := by simp
  align_greatest := by simp
  size_eq := rfl

theorem Placed.place (h : layout.Placed) {ty : DataType} {size : Nat}
    (hsize : ty.size = some size) :
    (⟨layout.fields ++ [⟨ty, alignUp layout.size size⟩], alignUp layout.size size + size,
      max layout.align size⟩ : RecordLayout).Placed where
  packed := h.packed.place hsize
  native := by
    intro f hf
    rcases List.mem_append.1 hf with hf | hf
    · exact h.native f hf
    · rintro hhandle
      rw [List.mem_singleton.1 hf] at hhandle
      rw [DataType.size_eq_none_iff.2 hhandle] at hsize
      contradiction
  offset_least := by
    intro i align f hf halign
    change (layout.fields ++ [_])[i]? = some f at hf
    change IsLeast {n | align ∣ n ∧ stopBefore (layout.fields ++ [_]) i ≤ n} f.offset
    rcases Nat.lt_trichotomy i layout.fields.length with hi | rfl | hi
    · rw [List.getElem?_append_left hi] at hf
      rw [stopBefore_append hi.le]
      exact h.offset_least hf halign
    · rw [List.getElem?_concat_length] at hf
      cases hf
      rw [show ty.align = ty.size from rfl, hsize] at halign
      cases halign
      rw [stopBefore_append le_rfl, ← h.size_eq]
      exact isLeast_alignUp _ (DataType.size_pos hsize)
    · rw [List.getElem?_eq_none (by rw [List.length_append, List.length_singleton]; omega)] at hf
      contradiction
  align_greatest := by
    have hfields : {a | ∃ f ∈ layout.fields ++ [⟨ty, alignUp layout.size size⟩],
        f.dataType.align = some a} =
        insert size {a | ∃ f ∈ layout.fields, f.dataType.align = some a} := by
      ext a
      simp [or_and_right, exists_or, DataType.align, hsize, or_comm, eq_comm]
    change IsGreatest (insert 1 {a | ∃ f ∈ layout.fields ++ [_], _}) (max layout.align size)
    rw [hfields, Set.insert_comm, max_comm]
    exact h.align_greatest.insert size
  size_eq := by
    rw [stopBefore_length_append]
    simp [Field.stop, Field.width, hsize]

theorem Placed.extend {packed : RecordLayout} (h : layout.Placed)
    (hext : layout.extend types = .ok packed) : packed.Placed := by
  induction types generalizing layout with
  | nil =>
      cases hext
      exact h
  | cons ty types ih =>
      unfold RecordLayout.extend at hext
      split at hext
      · contradiction
      · rename_i size hsize
        exact ih (h.place hsize) hext

/-- The end of the last field is the end of all of them. -/
theorem Placed.size_le_iff (h : layout.Placed) {n : Nat} :
    layout.size ≤ n ↔ ∀ f ∈ layout.fields, f.stop ≤ n := by
  refine ⟨fun hn f hf => (h.packed.bounded f hf).trans hn, fun hn => ?_⟩
  rw [h.size_eq]
  cases hlength : layout.fields.length with
  | zero => exact Nat.zero_le n
  | succ last =>
      have hlast : last < layout.fields.length := by omega
      simpa [stopBefore, hlast] using hn _ (List.getElem_mem hlast)

theorem laysOut_of_ofTypes (h : ofTypes types = .ok layout) : layout.LaysOut types := by
  obtain ⟨hpacked, htypes⟩ := ofTypes_eq_ok h
  unfold ofTypes at h
  cases hext : extend ⟨[], 0, 1⟩ types with
  | error k => simp [hext, bind, Except.bind] at h
  | ok packed =>
      simp only [hext, bind, Except.bind, pure, Except.pure, Except.ok.injEq] at h
      subst h
      have hplaced := placed_empty.extend hext
      have haligns : {a | ∃ f ∈ packed.fields, f.dataType.align = some a} =
          {a | ∃ ty ∈ types, ty.align = some a} := by
        rw [← htypes]
        simp
      have hgreatest := hplaced.align_greatest
      rw [haligns] at hgreatest
      have hnative : .handle ∉ types := by
        rw [← htypes, List.mem_map]
        rintro ⟨f, hf, hhandle⟩
        exact hplaced.native f hf hhandle
      refine ⟨htypes, hnative, hplaced.offset_least, hpacked.apart, ?_, ?_, ?_⟩
      · rintro rfl
        simpa using hgreatest.1
      · intro hne
        refine ⟨?_, fun a ha => hgreatest.2 (.inr ha)⟩
        rcases hgreatest.1 with hone | hmem
        · -- the first type is aligned to 1 at least and to the greatest alignment at most
          obtain ⟨ty, hty⟩ := List.exists_mem_of_ne_nil types hne
          obtain ⟨size, hsize⟩ := Option.ne_none_iff_exists'.1
            (mt DataType.size_eq_none_iff.1 (ne_of_mem_of_not_mem hty hnative))
          have hle : size ≤ packed.align := hgreatest.2 (.inr ⟨ty, hty, hsize⟩)
          have hpos := DataType.size_pos hsize
          have heq : packed.align = size := by omega
          exact ⟨ty, hty, heq ▸ hsize⟩
        · exact hmem
      · have hleast := isLeast_alignUp packed.size hplaced.packed.align_pos
        simpa only [hplaced.size_le_iff] using hleast

/-- Placing stops at the first type without a native image. -/
theorem extend_eq_error_iff {k : Nat} : layout.extend types = .error k ↔
    ∃ i, types.findIdx? (· == .handle) = some i ∧ k = layout.fields.length + i := by
  induction types generalizing layout with
  | nil => simp [extend]
  | cons ty types ih =>
      unfold extend
      rw [List.findIdx?_cons]
      cases hsize : ty.size with
      | none =>
          rw [DataType.size_eq_none_iff.1 hsize]
          simp [eq_comm]
      | some size =>
          have hnative : (ty == .handle) = false := by
            rw [beq_eq_false_iff_ne]
            rintro rfl
            contradiction
          simp [ih, hnative, Nat.add_assoc, Nat.add_comm 1]

theorem ofTypes_eq_error_iff {i : Nat} : ofTypes types = .error i ↔
    types[i]? = some .handle ∧ ∀ j < i, types[j]? ≠ some .handle := by
  have hextend : ofTypes types = .error i ↔ extend ⟨[], 0, 1⟩ types = .error i := by
    unfold ofTypes
    cases extend ⟨[], 0, 1⟩ types with
    | error k => simp [bind, Except.bind]
    | ok packed => simp [bind, Except.bind, pure, Except.pure]
  have hfirst : extend ⟨[], 0, 1⟩ types = .error i ↔
      types.findIdx? (· == .handle) = some i := by
    rw [extend_eq_error_iff]
    simp
  rw [hextend, hfirst, List.findIdx?_eq_some_iff_getElem]
  constructor
  · rintro ⟨hi, hhandle, hbefore⟩
    refine ⟨by rw [List.getElem?_eq_getElem hi, eq_of_beq hhandle], fun j hj hhandle => ?_⟩
    obtain ⟨hlt, heq⟩ := List.getElem?_eq_some_iff.1 hhandle
    exact hbefore j hj (by simp [heq])
  · rintro ⟨hhandle, hbefore⟩
    obtain ⟨hi, heq⟩ := List.getElem?_eq_some_iff.1 hhandle
    refine ⟨hi, by simp [heq], fun j hj hbefore' => ?_⟩
    exact hbefore j hj (by rw [List.getElem?_eq_getElem (by omega), eq_of_beq hbefore'])

/-! ## Writes and reads -/

/-- The value has the type of the field that it is written to. -/
def TypeCorrect (layout : RecordLayout) (w : Nat × Value) : Prop :=
  ∀ ty ∈ layout.dataType? w.1, w.2.dataType = ty

instance (layout : RecordLayout) (w : Nat × Value) : Decidable (layout.TypeCorrect w) :=
  inferInstanceAs (Decidable (∀ ty ∈ layout.dataType? w.1, w.2.dataType = ty))

/-- Writes values to fields, one after another. -/
def writeAll (layout : RecordLayout) (record : Bytes) (ws : List (Nat × Value)) : Bytes :=
  ws.foldl (fun record w => layout.write record w.1 w.2) record

/-- The last value that is written to a field. -/
def lastWrite? (ws : List (Nat × Value)) (field : Nat) : Option Value :=
  (ws.filter fun w => w.1 == field).getLast?.map Prod.snd

/-- What records of the layout hold, from the zeroed record through any sequence of writes of
values of the right types. -/
structure Stores (layout : RecordLayout) : Prop where
  allocate_zero : ∀ b ∈ layout.allocate, b = 0
  size_le : layout.size ≤ layout.allocate.length
  length_writeAll (ws : List (Nat × Value)) :
    (layout.writeAll layout.allocate ws).length = layout.allocate.length
  zero_isSome {field : Nat} {ty : DataType} : layout.dataType? field = some ty → ty.zero.isSome
  read_last {ws : List (Nat × Value)} {field : Nat} {ty : DataType} :
    (∀ w ∈ ws, layout.TypeCorrect w) → layout.dataType? field = some ty →
      layout.read? (layout.writeAll layout.allocate ws) field = (lastWrite? ws field).or ty.zero
  read_past (record : Bytes) {field : Nat} : layout.count ≤ field →
    layout.read? record field = none
  zero_outside {ws : List (Nat × Value)} {k : Nat} :
    (∀ w ∈ ws, layout.TypeCorrect w) → k < layout.allocate.length →
      (∀ w ∈ ws, ∀ f, layout.fields[w.1]? = some f → k < f.offset ∨ f.stop ≤ k) →
        (layout.writeAll layout.allocate ws)[k]? = some 0

variable {record : Bytes} {field i : Nat} {f : Field} {v : Value} {w : Nat × Value}
  {ws : List (Nat × Value)}

theorem write_eq (hf : layout.fields[field]? = some f) (v : Value) :
    layout.write record field v = record.overwrite f.offset v.toBytes := by
  rw [write, offset?, hf]
  rfl

theorem write_past (hpast : layout.fields[field]? = none) (v : Value) :
    layout.write record field v = record := by
  rw [write, offset?, hpast]
  rfl

@[simp] theorem length_write (record : Bytes) (field : Nat) (v : Value) :
    (layout.write record field v).length = record.length := by
  cases hf : layout.fields[field]? with
  | none => rw [write_past hf]
  | some f => rw [write_eq hf, Bytes.length_overwrite]

theorem length_writeAll (record : Bytes) (ws : List (Nat × Value)) :
    (layout.writeAll record ws).length = record.length := by
  induction ws generalizing record with
  | nil => rfl
  | cons w ws ih => rw [writeAll, List.foldl_cons, ← writeAll, ih, length_write]

theorem TypeCorrect.width_eq (hw : layout.TypeCorrect w) (hf : layout.fields[w.1]? = some f) :
    w.2.dataType = f.dataType ∧ f.width = w.2.toBytes.length := by
  have htype : w.2.dataType = f.dataType := hw _ (by rw [dataType?, hf]; rfl)
  refine ⟨htype, ?_⟩
  rw [Field.width, ← htype, w.2.length_toBytes]
  rfl

theorem read?_eq (hf : layout.fields[field]? = some f) :
    layout.read? record field = Value.ofBytes? f.dataType (record.drop f.offset) := by
  rw [read?, hf]
  rfl

theorem read?_past (hpast : layout.fields[field]? = none) (record : Bytes) :
    layout.read? record field = none := by
  rw [read?, hpast]
  rfl

/-- Reading looks at the bytes of the field alone. -/
theorem read?_congr {record' : Bytes} (hf : layout.fields[field]? = some f)
    (hbytes : fieldBytes record f = fieldBytes record' f) :
    layout.read? record field = layout.read? record' field := by
  rw [read?_eq hf, read?_eq hf, Value.ofBytes?_congr hbytes]

theorem Packed.stop_le_length (h : layout.Packed) (hsize : layout.size ≤ record.length)
    (hf : layout.fields[field]? = some f) : f.stop ≤ record.length :=
  (h.bounded f (List.mem_of_getElem? hf)).trans hsize

/-- The field that a value is written to holds the value. -/
theorem read?_write_same (hpacked : layout.Packed) (hsize : layout.size ≤ record.length)
    (hw : layout.TypeCorrect w) (hf : layout.fields[w.1]? = some f) :
    layout.read? (layout.write record w.1 w.2) w.1 = some w.2 := by
  obtain ⟨htype, hwidth⟩ := hw.width_eq hf
  have hstop := hpacked.stop_le_length hsize hf
  rw [Field.stop, hwidth] at hstop
  rw [read?_eq hf, write_eq hf, ← htype]
  exact Value.ofBytes?_of_take (Bytes.slice_overwrite_same _ _ _ hstop)

/-- The other fields hold what they held before. -/
theorem read?_write_ne (hpacked : layout.Packed) (hsize : layout.size ≤ record.length)
    (hw : layout.TypeCorrect w) (hne : w.1 ≠ i) :
    layout.read? (layout.write record w.1 w.2) i = layout.read? record i := by
  cases hwritten : layout.fields[w.1]? with
  | none => rw [write_past hwritten]
  | some written =>
      cases hread : layout.fields[i]? with
      | none => rw [read?_past hread, read?_past hread]
      | some f =>
          obtain ⟨-, hwidth⟩ := hw.width_eq hwritten
          have hstop := hpacked.stop_le_length hsize hwritten
          have hapart : f.stop ≤ written.offset ∨ written.stop ≤ f.offset := by
            rcases Nat.lt_or_gt_of_ne hne with h | h
            · exact .inr (hpacked.stop_le_offset hwritten hread h)
            · exact .inl (hpacked.stop_le_offset hread hwritten h)
          rw [Field.stop, Field.stop, hwidth] at hapart
          rw [Field.stop, hwidth] at hstop
          rw [write_eq hwritten]
          exact read?_congr hread (Bytes.slice_overwrite_apart _ _ _ _ _ hstop hapart)

/-- The bytes outside the field are as before. -/
theorem getElem?_write (hpacked : layout.Packed) (hsize : layout.size ≤ record.length)
    (hw : layout.TypeCorrect w)
    (hout : ∀ f, layout.fields[w.1]? = some f → i < f.offset ∨ f.stop ≤ i) :
    (layout.write record w.1 w.2)[i]? = record[i]? := by
  cases hf : layout.fields[w.1]? with
  | none => rw [write_past hf]
  | some f =>
      obtain ⟨-, hwidth⟩ := hw.width_eq hf
      have hstop := hpacked.stop_le_length hsize hf
      have hi := hout f hf
      rw [Field.stop, hwidth] at hstop hi
      rw [write_eq hf, Bytes.getElem?_overwrite _ _ _ _ hstop, if_neg (by omega)]

/-! ## Any sequence of writes -/

theorem lastWrite?_cons (w : Nat × Value) (ws : List (Nat × Value)) (field : Nat) :
    lastWrite? (w :: ws) field =
      (lastWrite? ws field).or (if w.1 = field then some w.2 else none) := by
  unfold lastWrite?
  by_cases hw : w.1 = field
  · rw [List.filter_cons_of_pos (by simpa using hw), List.getLast?_cons, if_pos hw]
    cases (ws.filter fun w => w.1 == field).getLast? <;> rfl
  · rw [List.filter_cons_of_neg (by simpa using hw), if_neg hw, Option.or_none]

theorem writeAll_cons (layout : RecordLayout) (record : Bytes) (w : Nat × Value)
    (ws : List (Nat × Value)) :
    layout.writeAll record (w :: ws) = layout.writeAll (layout.write record w.1 w.2) ws := rfl

theorem read?_writeAll (hpacked : layout.Packed) (hsize : layout.size ≤ record.length)
    (hws : ∀ w ∈ ws, layout.TypeCorrect w) (hf : layout.fields[field]? = some f) :
    layout.read? (layout.writeAll record ws) field =
      (lastWrite? ws field).or (layout.read? record field) := by
  induction ws generalizing record with
  | nil => rfl
  | cons w ws ih =>
      obtain ⟨hw, hrest⟩ := List.forall_mem_cons.1 hws
      rw [writeAll_cons, ih (by rwa [length_write]) hrest, lastWrite?_cons, Option.or_assoc]
      congr 1
      by_cases hfield : w.1 = field
      · subst hfield
        rw [read?_write_same hpacked hsize hw hf, if_pos rfl, Option.some_or]
      · rw [read?_write_ne hpacked hsize hw hfield, if_neg hfield, Option.none_or]

theorem getElem?_writeAll (hpacked : layout.Packed) (hsize : layout.size ≤ record.length)
    (hws : ∀ w ∈ ws, layout.TypeCorrect w)
    (hout : ∀ w ∈ ws, ∀ f, layout.fields[w.1]? = some f → i < f.offset ∨ f.stop ≤ i) :
    (layout.writeAll record ws)[i]? = record[i]? := by
  induction ws generalizing record with
  | nil => rfl
  | cons w ws ih =>
      obtain ⟨hw, hrest⟩ := List.forall_mem_cons.1 hws
      obtain ⟨houtw, houtrest⟩ := List.forall_mem_cons.1 hout
      rw [writeAll_cons, ih (by rwa [length_write]) hrest houtrest,
        getElem?_write hpacked hsize hw houtw]

/-- A zeroed record holds the zero of every type. -/
theorem read?_allocate (hpacked : layout.Packed) (hf : layout.fields[field]? = some f)
    (hnative : f.dataType ≠ .handle) :
    layout.read? layout.allocate field = f.dataType.zero := by
  obtain ⟨size, hsize⟩ := Option.ne_none_iff_exists'.1 (mt DataType.size_eq_none_iff.1 hnative)
  obtain ⟨zero, hzero, htype, hbytes⟩ := DataType.exists_zero hsize
  have hstop := hpacked.stop_le_length layout.size_le_length_allocate hf
  rw [Field.stop, Field.width, hsize, Option.getD_some, allocate, List.length_replicate] at hstop
  rw [read?_eq hf, hzero, ← htype]
  apply Value.ofBytes?_of_take
  rw [hbytes, List.length_replicate, allocate, List.drop_replicate, List.take_replicate,
    Nat.min_eq_left (by omega)]

theorem LaysOut.ne_handle (h : layout.LaysOut types) (hf : layout.fields[field]? = some f) :
    f.dataType ≠ .handle := by
  rintro hhandle
  refine h.native ?_
  rw [← h.dataTypes_eq, ← hhandle]
  exact List.mem_map_of_mem (List.mem_of_getElem? hf)

theorem stores_of_ofTypes (h : ofTypes types = .ok layout) : layout.Stores := by
  have hpacked := (ofTypes_eq_ok h).1
  have hlays := laysOut_of_ofTypes h
  have hsize := layout.size_le_length_allocate
  constructor
  case allocate_zero => exact fun b hb => List.eq_of_mem_replicate hb
  case size_le => exact hsize
  case length_writeAll => exact length_writeAll _
  case zero_isSome =>
    intro field ty hty
    obtain ⟨f, hf, rfl⟩ := Option.map_eq_some_iff.1 hty
    have hnative := hlays.ne_handle hf
    cases hdata : f.dataType <;> first | rfl | contradiction
  case read_last =>
    intro ws field ty hws hty
    obtain ⟨f, hf, rfl⟩ := Option.map_eq_some_iff.1 hty
    rw [read?_writeAll hpacked hsize hws hf, read?_allocate hpacked hf (hlays.ne_handle hf)]
  case read_past => exact fun record _ hpast => read?_past (List.getElem?_eq_none hpast) record
  case zero_outside =>
    intro ws k hws hk hout
    rw [getElem?_writeAll hpacked hsize hws hout, List.getElem?_eq_getElem hk]
    simp [allocate]

/-- A list of types has a layout unless it names a handle, the layout is the tightest one that
keeps fields aligned, and records of it hold what is written to them. -/
theorem ofTypes_lays_out_and_stores (types : List DataType) :
    (∀ i, ofTypes types = .error i ↔
      types[i]? = some .handle ∧ ∀ j < i, types[j]? ≠ some .handle) ∧
    (∀ layout, ofTypes types = .ok layout → layout.LaysOut types ∧ layout.Stores) ∧
    ∀ (v : Value) (rest : Bytes), Value.ofBytes? v.dataType (v.toBytes ++ rest) = some v :=
  ⟨fun _ => ofTypes_eq_error_iff, fun _ h => ⟨laysOut_of_ofTypes h, stores_of_ofTypes h⟩,
    fun _ _ => Value.ofBytes?_of_take List.take_left⟩

def mixed : RecordLayout := ⟨[⟨.bool, 0⟩, ⟨.f64, 8⟩, ⟨.i32, 16⟩, ⟨.bool, 20⟩], 24, 8⟩

/-- The last field is written twice, the integer not at all, and one write goes past the end. -/
def mixedWrites : List (Nat × Value) :=
  [(3, .bool true), (1, .f64 0x7FF0000000000001), (9, .i32 5), (3, .bool false), (0, .bool true)]

theorem ofTypes_lays_out_and_stores_mixed :
    ofTypes [.bool, .f64, .i32, .bool] = .ok mixed ∧ mixed.LaysOut [.bool, .f64, .i32, .bool] ∧
    mixed.read? (mixed.writeAll mixed.allocate mixedWrites) 1 = some (.f64 0x7FF0000000000001) ∧
    mixed.read? (mixed.writeAll mixed.allocate mixedWrites) 2 = some (.i32 0) ∧
    mixed.read? (mixed.writeAll mixed.allocate mixedWrites) 3 = some (.bool false) ∧
    mixed.read? (mixed.writeAll mixed.allocate mixedWrites) 9 = none ∧
    (mixed.writeAll mixed.allocate mixedWrites)[5]? = some 0 ∧
    ofTypes [.i32, .handle, .bool, .handle] = .error 1 := by
  have hmixed : ofTypes [.bool, .f64, .i32, .bool] = .ok mixed := rfl
  have hcorrect : ∀ w ∈ mixedWrites, mixed.TypeCorrect w := by decide
  obtain ⟨hlays, hstores⟩ := (ofTypes_lays_out_and_stores _).2.1 mixed hmixed
  refine ⟨hmixed, hlays, hstores.read_last hcorrect (show mixed.dataType? 1 = some .f64 from rfl),
    hstores.read_last hcorrect (show mixed.dataType? 2 = some .i32 from rfl),
    hstores.read_last hcorrect (show mixed.dataType? 3 = some .bool from rfl),
    hstores.read_past _ (by decide), ?_, ?_⟩
  · exact hstores.zero_outside hcorrect (by decide) (by decide)
  · exact ((ofTypes_lays_out_and_stores _).1 1).2 ⟨rfl, by decide⟩

end RecordLayout

end Dataflow
