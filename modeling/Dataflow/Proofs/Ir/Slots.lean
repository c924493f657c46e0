import Dataflow.Proofs.Ir.Execution
import Mathlib.Data.List.Forall2

/-!
# Slots of a memory

A run finds the results of a function in consecutive slots: filling them, reading them, and the
memory that has the slots of another one in place of its own.
-/

namespace Dataflow

open Ir

/-- Words that are scalars of these types, one for each. -/
def Scalars (types : List Ty) (words : List Word) : Prop :=
  List.Forall₂ (fun ty w => w.IsScalar ty) types words

namespace Ir

/-! ## Slots -/

namespace Memory

def slotSizes (m : Memory) : List Nat := m.slots.map List.length

/-- Puts images into the slots from `start` on. -/
def fillSlots (m : Memory) (start : Nat) : List Bytes → Memory
  | [] => m
  | image :: images => fillSlots (m.put (.slot start) image) (start + 1) images

/-- The slots from `start` on have room for one word of each type. -/
def HasSlots (m : Memory) (start : Nat) (types : List Ty) : Prop :=
  ∀ k ty, types[k]? = some ty → m.slotSizes[start + k]? = some ty.size

/-- The slots from `start` on have room for one word of each type and are as they were to begin
with. -/
def HasFreshSlots (m : Memory) (start : Nat) (types : List Ty) : Prop :=
  ∀ k ty, types[k]? = some ty → m.slots[start + k]? = some (List.replicate ty.size 0)

/-- The addresses of `count` slots from `start` on. -/
def slotAddresses (start count : Nat) : List Word :=
  (List.range' start count).map fun k => .address (.slot k)

/-- The slots for words of these types, as they are to begin with. -/
def freshSlots (types : List Ty) : List Bytes := types.map fun ty => List.replicate ty.size 0

/-- A memory of nothing but fresh slots. -/
def frame (types : List Ty) : Memory := ⟨[], [], freshSlots types, []⟩

/-- The memory with the slots of another one in place of its own from `start` on. -/
def around (m : Memory) (start : Nat) (inner : Memory) : Memory :=
  { m with slots := m.slots.take start ++ inner.slots ++ m.slots.drop (start + inner.slots.length) }

variable {m inner : Memory} {start : Nat} {types : List Ty} {words : List Word}

theorem length_slotSizes (m : Memory) : m.slotSizes.length = m.slots.length := List.length_map _

theorem slotSizes_put {image : Bytes} (h : m.slotSizes[start]? = some image.length) :
    (m.put (.slot start) image).slotSizes = m.slotSizes := by
  change (m.slots.set start image).map List.length = m.slots.map List.length
  rw [List.map_set]
  apply List.ext_getElem?
  intro k
  by_cases hk : start = k
  · subst hk
    rw [slotSizes] at h
    have hlt : start < (m.slots.map List.length).length := (List.getElem?_eq_some_iff.1 h).1
    rw [List.getElem?_set_self hlt, h]
  · rw [List.getElem?_set_ne hk]

theorem HasSlots.tail {ty : Ty} (h : m.HasSlots start (ty :: types)) :
    m.HasSlots (start + 1) types := by
  intro k t hk
  rw [Nat.add_assoc, Nat.add_comm 1]
  exact h (k + 1) t hk

theorem HasSlots.congr {m' : Memory} (h : m.HasSlots start types)
    (hsizes : m'.slotSizes = m.slotSizes) : m'.HasSlots start types := by
  intro k ty hk
  rw [hsizes]
  exact h k ty hk

theorem fillSlots_frame (m : Memory) (start : Nat) (images : List Bytes) :
    (m.fillSlots start images).input = m.input ∧
      (m.fillSlots start images).output = m.output ∧
      (m.fillSlots start images).cells = m.cells := by
  induction images generalizing m start with
  | nil => exact ⟨rfl, rfl, rfl⟩
  | cons image images ih => exact ih _ _

theorem getElem?_fillSlots_of_lt {k : Nat} (images : List Bytes) (h : k < start) :
    (m.fillSlots start images).slots[k]? = m.slots[k]? := by
  induction images generalizing m start with
  | nil => rfl
  | cons image images ih =>
      rw [fillSlots, ih (by omega)]
      exact List.getElem?_set_ne (by omega)

theorem getElem?_fillSlots_of_ge {k : Nat} {images : List Bytes}
    (h : start + images.length ≤ k) : (m.fillSlots start images).slots[k]? = m.slots[k]? := by
  induction images generalizing m start with
  | nil => rfl
  | cons image images ih =>
      rw [List.length_cons] at h
      rw [fillSlots, ih (by omega)]
      exact List.getElem?_set_ne (by omega)

theorem length_fillSlots (m : Memory) (start : Nat) (images : List Bytes) :
    (m.fillSlots start images).slots.length = m.slots.length := by
  induction images generalizing m start with
  | nil => rfl
  | cons image images ih => exact (ih _ _).trans List.length_set

/-- A filled slot holds its image. -/
theorem getElem?_fillSlots {k : Nat} {images : List Bytes} {image : Bytes}
    (himage : images[k]? = some image) (hroom : start + k < m.slots.length) :
    (m.fillSlots start images).slots[start + k]? = some image := by
  induction images generalizing m start k with
  | nil => simp at himage
  | cons first images ih =>
      rw [fillSlots]
      cases k with
      | zero =>
          cases himage
          rw [getElem?_fillSlots_of_lt _ (by omega)]
          exact List.getElem?_set_self hroom
      | succ k =>
          rw [show start + (k + 1) = start + 1 + k by omega] at hroom ⊢
          refine ih himage ?_
          change start + 1 + k < (m.slots.set start first).length
          rw [List.length_set]
          exact hroom

/-- A word of the right size replaces whatever a slot held. -/
theorem store_slot {ty : Ty} {w : Word} (hw : w.IsScalar ty)
    (h : m.slotSizes[start]? = some ty.size) :
    m.store w (.slot start) 0 = .ok (m.put (.slot start) w.image) := by
  rw [slotSizes, List.getElem?_map, Option.map_eq_some_iff] at h
  obtain ⟨bs, hbs, hsize⟩ := h
  have hwhole : Bytes.overwrite bs 0 w.image = w.image := by
    rw [Bytes.overwrite, List.take_zero, List.nil_append, Nat.sub_zero,
      List.take_of_length_le (Nat.le_of_eq (by rw [hw.length_image, hsize])),
      List.drop_eq_nil_of_le (by rw [hw.length_image, hsize]; omega), List.append_nil]
  rw [Memory.store_of_bytes? hw (show m.bytes? (.slot start) = some bs from hbs), hwhole]

/-- Slots that are filled are replaced as a whole. -/
theorem fillSlots_eq {images : List Bytes} (h : start + images.length ≤ m.slots.length) :
    m.fillSlots start images = { m with
      slots := m.slots.take start ++ images ++ m.slots.drop (start + images.length) } := by
  induction images generalizing m start with
  | nil => simp [fillSlots]
  | cons image images ih =>
      rw [List.length_cons] at h
      have hlength : (m.put (.slot start) image).slots.length = m.slots.length :=
        List.length_set
      have hset : (m.put (.slot start) image).slots =
          m.slots.take start ++ image :: m.slots.drop (start + 1) :=
        List.set_eq_take_append_cons_drop.trans (if_pos (by omega))
      have htake : (m.slots.take start).length = start := List.length_take_of_le (by omega)
      rw [fillSlots, ih (by rw [hlength]; omega), hset]
      change Memory.mk _ _ _ _ = Memory.mk _ _ _ _
      congr 1
      have hfirst : (m.slots.take start ++ image :: m.slots.drop (start + 1)).take (start + 1) =
          m.slots.take start ++ [image] := by
        rw [List.take_append, htake, Nat.add_sub_cancel_left,
          List.take_of_length_le (by rw [htake]; omega)]
        rfl
      have hrest : (m.slots.take start ++ image :: m.slots.drop (start + 1)).drop
          (start + 1 + images.length) = m.slots.drop (start + (images.length + 1)) := by
        rw [List.drop_append, htake, List.drop_eq_nil_of_le (by rw [htake]; omega),
          List.nil_append, show start + 1 + images.length - start = images.length + 1 by omega,
          List.drop_succ_cons, List.drop_drop]
        congr 1
        omega
      rw [hfirst, hrest, List.append_assoc, List.append_assoc, List.append_assoc, List.length_cons]
      rfl

theorem HasFreshSlots.hasSlots (h : m.HasFreshSlots start types) : m.HasSlots start types := by
  intro k ty hk
  rw [slotSizes, List.getElem?_map, h k ty hk, Option.map_some, List.length_replicate]

theorem HasFreshSlots.take_drop (h : m.HasFreshSlots start types) :
    (m.slots.drop start).take types.length = freshSlots types := by
  apply List.ext_getElem?
  intro k
  rw [List.getElem?_take, List.getElem?_drop, freshSlots, List.getElem?_map]
  split
  · rename_i hk
    rw [List.getElem?_eq_getElem hk]
    exact h k _ (List.getElem?_eq_getElem hk)
  · rename_i hk
    rw [List.getElem?_eq_none (Nat.le_of_not_lt hk)]
    rfl

theorem HasFreshSlots.le (h : m.HasFreshSlots start types) (hstart : start ≤ m.slots.length) :
    start + types.length ≤ m.slots.length := by
  have hlength := congrArg List.length h.take_drop
  rw [List.length_take, List.length_drop, freshSlots, List.length_map] at hlength
  omega

theorem hasFreshSlots_frame (types : List Ty) : (frame types).HasFreshSlots 0 types := by
  intro k ty hk
  rw [Nat.zero_add]
  change (types.map _)[k]? = _
  rw [List.getElem?_map, hk]
  rfl

/-- Fresh slots of a memory are a frame inside it. -/
theorem around_frame (hfresh : m.HasFreshSlots start types) :
    m.around start (frame types) = m := by
  have h := hfresh.take_drop
  have hlength : (freshSlots types).length = types.length := List.length_map _
  have hsplit : m.slots.take start ++ freshSlots types ++
      m.slots.drop (start + (freshSlots types).length) = m.slots := by
    rw [hlength, ← h, List.append_assoc, ← List.drop_drop, List.take_append_drop,
      List.take_append_drop]
  exact congrArg (fun slots => { m with slots }) hsplit

theorem around_eq_fillSlots (h : start + inner.slots.length ≤ m.slots.length) :
    m.around start inner = m.fillSlots start inner.slots := (fillSlots_eq h).symm

section

variable (hstart : start ≤ m.slots.length) {k : Nat} (hk : k < inner.slots.length)

include hstart hk

theorem bytes?_around : (m.around start inner).bytes? (.slot (start + k)) =
    inner.bytes? (.slot k) := by
  have htake : (m.slots.take start).length = start := List.length_take_of_le hstart
  change (m.slots.take start ++ inner.slots ++ _)[start + k]? = inner.slots[k]?
  rw [List.append_assoc, List.getElem?_append_right (by rw [htake]; omega), htake,
    Nat.add_sub_cancel_left, List.getElem?_append_left hk]

theorem put_around (image : Bytes) : (m.around start inner).put (.slot (start + k)) image =
    m.around start (inner.put (.slot k) image) := by
  have htake : (m.slots.take start).length = start := List.length_take_of_le hstart
  have hset : (m.slots.take start ++ inner.slots ++
      m.slots.drop (start + inner.slots.length)).set (start + k) image =
      m.slots.take start ++ inner.slots.set k image ++
        m.slots.drop (start + (inner.slots.set k image).length) := by
    rw [List.append_assoc, List.set_append_right _ _ (by rw [htake]; omega), htake,
      Nat.add_sub_cancel_left, List.set_append_left _ _ hk, List.append_assoc, List.length_set]
  exact congrArg (fun slots => { m with slots }) hset

end

end Memory

end Ir

end Dataflow
