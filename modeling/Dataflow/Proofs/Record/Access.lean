import Dataflow.Proofs.Scalar.Images
import Dataflow.Record

/-!
# Fields of records

The fields of a layout lie apart and inside the record, so a record that is filled field
by field holds every image that was written to it.
-/

namespace Dataflow

theorem le_alignUp (n align : Nat) (h : 0 < align) : n ≤ alignUp n align := by
  unfold alignUp
  have hdiv := Nat.div_add_mod (n + align - 1) align
  have hmod := Nat.mod_lt (n + align - 1) h
  rw [Nat.mul_comm] at hdiv
  omega

theorem DataType.size_pos {ty : DataType} {size : Nat} (h : ty.size = some size) : 0 < size := by
  cases ty <;> cases h <;> decide

namespace Field

/-- The bytes that a field takes up. -/
def width (f : Field) : Nat := f.dataType.size.getD 0

def stop (f : Field) : Nat := f.offset + f.width

end Field

namespace RecordLayout

/-- No two fields share a byte and all of them lie inside. -/
structure Packed (layout : RecordLayout) : Prop where
  apart : layout.fields.Pairwise fun a b => a.stop ≤ b.offset
  bounded : ∀ f ∈ layout.fields, f.stop ≤ layout.size
  align_pos : 0 < layout.align

/-- Placing one more field behind the others. -/
theorem Packed.place {layout : RecordLayout} (h : layout.Packed) {ty : DataType} {size : Nat}
    (hsize : ty.size = some size) :
    (⟨layout.fields ++ [⟨ty, alignUp layout.size size⟩], alignUp layout.size size + size,
      max layout.align size⟩ : RecordLayout).Packed := by
  have hplace := le_alignUp layout.size size (DataType.size_pos hsize)
  have hstop : (⟨ty, alignUp layout.size size⟩ : Field).stop =
      alignUp layout.size size + size := by
    simp [Field.stop, Field.width, hsize]
  refine ⟨?_, ?_, ?_⟩
  · rw [List.pairwise_append]
    refine ⟨h.apart, List.pairwise_singleton _ _, ?_⟩
    intro a ha b hb
    rw [List.mem_singleton.1 hb]
    exact Nat.le_trans (h.bounded a ha) hplace
  · intro f hf
    change f.stop ≤ alignUp layout.size size + size
    rcases List.mem_append.1 hf with hf | hf
    · have hbound := h.bounded f hf
      omega
    · exact Nat.le_of_eq (by rw [List.mem_singleton.1 hf, hstop])
  · exact Nat.lt_of_lt_of_le h.align_pos (Nat.le_max_left _ _)

theorem extend_eq_ok {layout packed : RecordLayout} {types : List DataType}
    (hlayout : layout.Packed) (h : layout.extend types = .ok packed) :
    packed.Packed ∧
      packed.fields.map Field.dataType = layout.fields.map Field.dataType ++ types := by
  induction types generalizing layout with
  | nil =>
      cases h
      exact ⟨hlayout, by simp⟩
  | cons ty types ih =>
      unfold extend at h
      split at h
      · contradiction
      · rename_i size hsize
        obtain ⟨hpacked, htypes⟩ := ih (hlayout.place hsize) h
        refine ⟨hpacked, ?_⟩
        rw [htypes]
        simp

theorem ofTypes_eq_ok {types : List DataType} {layout : RecordLayout}
    (h : ofTypes types = .ok layout) :
    layout.Packed ∧ layout.fields.map Field.dataType = types := by
  unfold ofTypes at h
  cases hext : extend ⟨[], 0, 1⟩ types with
  | error k => simp [hext, bind, Except.bind] at h
  | ok packed =>
      simp only [hext, bind, Except.bind, pure, Except.pure, Except.ok.injEq] at h
      subst h
      obtain ⟨hpacked, htypes⟩ := extend_eq_ok ⟨List.Pairwise.nil, by simp, Nat.one_pos⟩ hext
      refine ⟨⟨hpacked.apart, ?_, hpacked.align_pos⟩, by simpa using htypes⟩
      intro f hf
      exact Nat.le_trans (hpacked.bounded f hf) (le_alignUp _ _ hpacked.align_pos)

theorem size_le_length_allocate (layout : RecordLayout) :
    layout.size ≤ layout.allocate.length := by
  simp only [allocate, words, List.length_replicate]
  omega

/-! ## Filling a record -/

/-- The bytes of a record that belong to a field. -/
def fieldBytes (record : Bytes) (f : Field) : Bytes := (record.drop f.offset).take f.width

/-- Writes images to the fields from `field` on. -/
def fill (layout : RecordLayout) (record : Bytes) (field : Nat) : List Bytes → Bytes
  | [] => record
  | image :: images =>
      match layout.offset? field with
      | none => fill layout record (field + 1) images
      | some offset => fill layout (record.overwrite offset image) (field + 1) images

/-- The images have the widths of the fields from `field` on, one image for each. -/
def Fits (layout : RecordLayout) (field : Nat) (images : List Bytes) : Prop :=
  List.Forall₂ (fun image f => image.length = f.width) images (layout.fields.drop field)

variable {layout : RecordLayout}

theorem Fits.cons {field : Nat} {image : Bytes} {images : List Bytes}
    (h : layout.Fits field (image :: images)) :
    ∃ f, layout.fields[field]? = some f ∧ image.length = f.width ∧
      layout.Fits (field + 1) images := by
  unfold Fits at h
  cases hdrop : layout.fields.drop field with
  | nil => rw [hdrop] at h; contradiction
  | cons f fs =>
      rw [hdrop] at h
      cases h with
      | cons hlen hrest =>
          refine ⟨f, ?_, hlen, ?_⟩
          · rw [← List.head?_drop, hdrop]
            rfl
          · unfold Fits
            rw [← List.tail_drop, hdrop]
            exact hrest

theorem Packed.stop_le_offset (h : layout.Packed) {i j : Nat} {f k : Field}
    (hf : layout.fields[i]? = some f) (hk : layout.fields[j]? = some k) (hij : i < j) :
    f.stop ≤ k.offset := by
  obtain ⟨hi, rfl⟩ := List.getElem?_eq_some_iff.1 hf
  obtain ⟨hj, rfl⟩ := List.getElem?_eq_some_iff.1 hk
  exact List.pairwise_iff_getElem.1 h.apart i j hi hj hij

/-- Filling fields leaves the fields before them alone. -/
theorem fieldBytes_fill_before (hpacked : layout.Packed) {record : Bytes} {field : Nat}
    {images : List Bytes} (hfits : layout.Fits field images)
    (hsize : layout.size ≤ record.length) {i : Nat} {f : Field} (hi : i < field)
    (hf : layout.fields[i]? = some f) :
    fieldBytes (layout.fill record field images) f = fieldBytes record f := by
  induction images generalizing record field with
  | nil => rfl
  | cons image images ih =>
      obtain ⟨k, hk, hlen, hrest⟩ := hfits.cons
      have hoffset : layout.offset? field = some k.offset := by
        rw [offset?, hk]
        rfl
      have hbound := hpacked.bounded k (List.mem_of_getElem? hk)
      have hbefore := hpacked.stop_le_offset hf hk hi
      unfold Field.stop at hbound hbefore
      unfold fill
      rw [hoffset]
      dsimp only
      rw [ih hrest (by rw [Bytes.length_overwrite]; exact hsize) (by omega)]
      exact Bytes.slice_overwrite_apart _ _ _ _ _ (by omega) (by omega)

/-- A filled record holds every image. -/
theorem fieldBytes_fill (hpacked : layout.Packed) {record : Bytes} {field : Nat}
    {images : List Bytes} (hfits : layout.Fits field images)
    (hsize : layout.size ≤ record.length) {i : Nat} {f : Field} {image : Bytes}
    (hf : layout.fields[field + i]? = some f) (himage : images[i]? = some image) :
    fieldBytes (layout.fill record field images) f = image := by
  induction images generalizing record field i with
  | nil => simp at himage
  | cons first images ih =>
      obtain ⟨k, hk, hlen, hrest⟩ := hfits.cons
      have hoffset : layout.offset? field = some k.offset := by
        rw [offset?, hk]
        rfl
      have hbound := hpacked.bounded k (List.mem_of_getElem? hk)
      unfold Field.stop at hbound
      have hsize' : layout.size ≤ (record.overwrite k.offset first).length := by
        rw [Bytes.length_overwrite]
        exact hsize
      unfold fill
      rw [hoffset]
      dsimp only
      cases i with
      | zero =>
          rw [Nat.add_zero, hk] at hf
          cases hf
          cases himage
          rw [fieldBytes_fill_before hpacked hrest hsize' (Nat.lt_succ_self _) hk, fieldBytes,
            ← hlen]
          exact Bytes.slice_overwrite_same _ _ _ (by omega)
      | succ i => exact ih hrest hsize' (by rw [← hf]; congr 1; omega) himage

end RecordLayout

end Dataflow
