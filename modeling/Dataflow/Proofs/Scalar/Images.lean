import Dataflow.Ir.Memory
import Mathlib.Data.List.Basic

/-!
# Values, words and their images in memory

A value travels through code as the word `Value.word` and lies in memory as the bytes of
that word. Reading the bytes back as a word gives the word, and reading them as a value
gives `Value.ofWord?` of it, wherever they lie.
-/

namespace Dataflow

/-! ## Byte strings -/

namespace Bytes

theorem length_overwrite (bs new : Bytes) (offset : Nat) :
    (bs.overwrite offset new).length = bs.length := by
  simp only [overwrite, List.length_append, List.length_take, List.length_drop]
  omega

theorem getElem?_overwrite (bs new : Bytes) (offset i : Nat)
    (hfits : offset + new.length ≤ bs.length) :
    (bs.overwrite offset new)[i]? =
      if offset ≤ i ∧ i < offset + new.length then new[i - offset]? else bs[i]? := by
  have htake : new.take (bs.length - offset) = new := List.take_of_length_le (by omega)
  have hlen : (bs.take offset).length = offset := by
    rw [List.length_take]
    omega
  unfold overwrite
  rw [htake, List.append_assoc]
  by_cases hlow : i < offset
  · rw [if_neg (by omega), List.getElem?_append_left (by omega), List.getElem?_take, if_pos hlow]
  · rw [List.getElem?_append_right (by omega), hlen]
    by_cases hin : i < offset + new.length
    · rw [if_pos (by omega), List.getElem?_append_left (by omega)]
    · rw [if_neg (by omega), List.getElem?_append_right (by omega), List.getElem?_drop]
      congr 1
      omega

/-- The bytes of a bit vector give its number back. -/
theorem toNat_ofNat_bitVec (count : Nat) (x : BitVec (8 * count)) :
    toNat (ofNat count x.toNat) = x.toNat := by
  have hpow : Nat.pow 256 count = 2 ^ (8 * count) := by
    rw [Nat.pow_mul]
    rfl
  rw [toNat_ofNat, hpow, Nat.mod_eq_of_lt x.isLt]

theorem bitVec_toNat_ofNat (count : Nat) (x : BitVec (8 * count)) :
    BitVec.ofNat (8 * count) (toNat (ofNat count x.toNat)) = x := by
  rw [toNat_ofNat_bitVec, BitVec.ofNat_toNat, BitVec.setWidth_eq]

theorem toNat_lt (bs : Bytes) : toNat bs < Nat.pow 256 bs.length := by
  induction bs with
  | nil => decide
  | cons b bs ih =>
      have hb := b.toNat_lt
      have hpow : Nat.pow 256 (bs.length + 1) = Nat.pow 256 bs.length * 256 := rfl
      rw [List.length_cons, hpow, toNat]
      omega

/-- Bytes are determined by their number and their count. -/
theorem ofNat_toNat (bs : Bytes) : ofNat bs.length (toNat bs) = bs := by
  induction bs with
  | nil => rfl
  | cons b bs ih =>
      have hb := b.toNat_lt
      rw [List.length_cons, ofNat, toNat, show (b.toNat + 256 * toNat bs) % 256 = b.toNat by omega,
        show (b.toNat + 256 * toNat bs) / 256 = toNat bs by omega, ih, UInt8.ofNat_toNat]

/-- What has been written is found again. -/
theorem slice_overwrite_same (bs new : Bytes) (offset : Nat)
    (hfits : offset + new.length ≤ bs.length) :
    ((bs.overwrite offset new).drop offset).take new.length = new := by
  apply List.ext_getElem?
  intro i
  rw [List.getElem?_take, List.getElem?_drop, getElem?_overwrite _ _ _ _ hfits]
  by_cases hi : i < new.length
  · rw [if_pos hi, if_pos (by omega), Nat.add_sub_cancel_left]
  · rw [if_neg hi, List.getElem?_eq_none (by omega)]

/-- A write leaves the bytes beside it alone. -/
theorem slice_overwrite_apart (bs new : Bytes) (offset start count : Nat)
    (hfits : offset + new.length ≤ bs.length)
    (hapart : start + count ≤ offset ∨ offset + new.length ≤ start) :
    ((bs.overwrite offset new).drop start).take count = (bs.drop start).take count := by
  apply List.ext_getElem?
  intro i
  rw [List.getElem?_take, List.getElem?_take, List.getElem?_drop, List.getElem?_drop,
    getElem?_overwrite _ _ _ _ hfits]
  by_cases hi : i < count
  · rw [if_pos hi, if_pos hi, if_neg (by omega)]
  · rw [if_neg hi, if_neg hi]

end Bytes

/-! ## Words -/

namespace Ir.Word

/-- The word is a scalar of this type, so it has an image in memory. -/
def IsScalar (ty : Ty) (w : Word) : Prop := w.ty = ty ∧ w.toBytes.isSome

/-- The image of a scalar, and nothing for an address. -/
def image (w : Word) : Bytes := w.toBytes.getD []

theorem IsScalar.toBytes_eq {ty : Ty} {w : Word} (h : w.IsScalar ty) :
    w.toBytes = some w.image := by
  obtain ⟨bs, hbs⟩ := Option.isSome_iff_exists.1 h.2
  rw [image, hbs]
  rfl

theorem IsScalar.length_image {ty : Ty} {w : Word} (h : w.IsScalar ty) :
    w.image.length = ty.size := by
  obtain ⟨rfl, hscalar⟩ := h
  cases w <;> simp_all [image, toBytes, Word.ty, Ty.size, Bytes.length_ofNat]

theorem IsScalar.ofBytes_image {ty : Ty} {w : Word} (h : w.IsScalar ty) :
    ofBytes ty w.image = w := by
  obtain ⟨rfl, hscalar⟩ := h
  cases w with
  | address region => simp [toBytes] at hscalar
  | i8 x => exact congrArg i8 (Bytes.bitVec_toNat_ofNat 1 x)
  | i32 x => exact congrArg i32 (Bytes.bitVec_toNat_ofNat 4 x)
  | i64 x => exact congrArg i64 (Bytes.bitVec_toNat_ofNat 8 x)
  | f32 x => exact congrArg f32 (Bytes.bitVec_toNat_ofNat 4 x)
  | f64 x => exact congrArg f64 (Bytes.bitVec_toNat_ofNat 8 x)

theorem isScalar_ofBytes (ty : Ty) (bs : Bytes) : (ofBytes ty bs).IsScalar ty := by
  cases ty <;> exact ⟨rfl, rfl⟩

/-- A word read from memory has the bytes it was read from as its image. -/
theorem image_ofBytes {ty : Ty} {bs : Bytes} (h : bs.length = ty.size) :
    (ofBytes ty bs).image = bs := by
  have hback : ∀ count, count = bs.length →
      Bytes.ofNat count (BitVec.ofNat (8 * count) (Bytes.toNat bs)).toNat = bs := by
    rintro _ rfl
    have hlt : Bytes.toNat bs < 2 ^ (8 * bs.length) := by
      rw [Nat.pow_mul]
      exact Bytes.toNat_lt bs
    rw [BitVec.toNat_ofNat, Nat.mod_eq_of_lt hlt, Bytes.ofNat_toNat]
  cases ty with
  | i8 => exact hback 1 h.symm
  | i32 => exact hback 4 h.symm
  | i64 => exact hback 8 h.symm
  | f32 => exact hback 4 h.symm
  | f64 => exact hback 8 h.symm

theorem IsScalar.cases {ty : Ty} {w : Word} (h : w.IsScalar ty) :
    match ty with
    | .i8 => ∃ x, w = .i8 x
    | .i32 => ∃ x, w = .i32 x
    | .i64 => ∃ x, w = .i64 x
    | .f32 => ∃ x, w = .f32 x
    | .f64 => ∃ x, w = .f64 x := by
  obtain ⟨rfl, hscalar⟩ := h
  cases w with
  | address region => simp [toBytes] at hscalar
  | _ x => exact ⟨x, rfl⟩

end Ir.Word

/-! ## Values as words -/

namespace Value

/-- The word in which a value travels through code. -/
def word : Value → Ir.Word
  | f32 x => .f32 x
  | f64 x => .f64 x
  | i32 x => .i32 x
  | i64 x => .i64 x
  | bool b => .ofBool b

/-- The value of a type that a word stands for; any byte but zero is true. -/
def ofWord? : DataType → Ir.Word → Option Value
  | .f32, .f32 x => some (.f32 x)
  | .f64, .f64 x => some (.f64 x)
  | .i32, .i32 x => some (.i32 x)
  | .i64, .i64 x => some (.i64 x)
  | .bool, .i8 x => some (.bool (x != 0))
  | _, _ => none

theorem native_dataType (v : Value) : v.dataType.native = some v.word.ty := by
  cases v <;> rfl

theorem isScalar_word (v : Value) {ty : Ir.Ty} (h : v.dataType.native = some ty) :
    v.word.IsScalar ty := by
  rw [native_dataType] at h
  cases h
  refine ⟨rfl, ?_⟩
  cases v <;> rfl

theorem toBytes_word (v : Value) : v.word.toBytes.isSome := by
  cases v <;> rfl

theorem image_word (v : Value) : v.word.image = v.toBytes := by
  cases v with
  | bool b => cases b <;> rfl
  | _ x => rfl

theorem ofWord?_word (v : Value) : ofWord? v.dataType v.word = some v := by
  cases v with
  | bool b => cases b <;> rfl
  | _ x => rfl

end Value

theorem DataType.size_of_native {ty : DataType} {native : Ir.Ty} (h : ty.native = some native) :
    ty.size = some native.size := by
  cases ty <;> cases h <;> rfl

theorem Value.length_toBytes (v : Value) : v.dataType.size = some v.toBytes.length := by
  have hnative := v.native_dataType
  rw [DataType.size_of_native hnative, ← v.image_word,
    (v.isScalar_word hnative).length_image]

/-- Reading the image of a word as a value gives the value the word stands for. -/
theorem Value.ofBytes?_image {ty : DataType} {native : Ir.Ty} (hty : ty.native = some native)
    {w : Ir.Word} (hw : w.IsScalar native) {bs : Bytes}
    (hbs : bs.take native.size = w.image) : Value.ofBytes? ty bs = Value.ofWord? ty w := by
  have hlen : native.size ≤ bs.length := by
    have h := congrArg List.length hbs
    rw [hw.length_image, List.length_take] at h
    omega
  have hback := hw.ofBytes_image
  have hslice : bs.slice? 0 native.size = some w.image := by
    rw [Bytes.slice?, if_pos (by omega), List.drop_zero, hbs]
  unfold Value.ofBytes?
  rw [DataType.size_of_native hty]
  simp only [Option.bind_eq_bind, Option.bind_some, hslice]
  cases ty with
  | handle => contradiction
  | bool =>
      cases hty
      obtain ⟨x, rfl⟩ := hw.cases
      simp only [Ir.Word.image, Ir.Word.toBytes, Option.getD_some, Value.ofWord?]
      rw [Bytes.toNat_ofNat_bitVec 1 x]
      by_cases hx : x = 0
      · subst hx
        rfl
      · have hne : x.toNat ≠ 0 := fun h => hx (BitVec.eq_of_toNat_eq h)
        rw [bne_iff_ne.2 hne, bne_iff_ne.2 hx]
  | _ =>
      cases hty
      obtain ⟨x, rfl⟩ := hw.cases
      unfold Ir.Word.ofBytes at hback
      injection hback with hx
      simp only [hx, Value.ofWord?]

theorem Value.ofBytes?_toBytes (v : Value) : ofBytes? v.dataType v.toBytes = some v := by
  have hscalar := isScalar_word v (native_dataType v)
  rw [← ofWord?_word v]
  refine ofBytes?_image (native_dataType v) hscalar ?_
  rw [← image_word, ← hscalar.length_image, List.take_length]

end Dataflow
