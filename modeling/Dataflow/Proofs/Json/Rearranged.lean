import Dataflow.Json.Codec
import Mathlib.Data.List.Forall2
import Mathlib.Data.List.Nodup

/-!
# Rearranged objects

`Json.Covers` holds of a value that differs from another in the order of the fields of its objects
and in further fields alone. Reading the fields of a structure does not see the difference: each
name leads to the one field that has it.
-/

namespace Dataflow

namespace Json

/-- The same value, but for the order of the fields of its objects and for further fields. -/
inductive Covers : Json → Json → Prop
  | refl (j : Json) : Covers j j
  | array {items others : List Json} (hitems : List.Forall₂ Covers items others) :
      Covers (.array items) (.array others)
  | object {fields known extra others : List (Option String × Json)}
      (hperm : fields.Perm (known ++ extra))
      (hkeys : known.map Prod.fst = others.map Prod.fst)
      (hvalues : List.Forall₂ Covers (known.map Prod.snd) (others.map Prod.snd))
      (hextra : ∀ f ∈ extra, f.1.isSome ∧ f.1 ∉ others.map Prod.fst) :
      Covers (.object fields) (.object others)

variable {j : Json}

/-- The fields of a structure in another order, with values that are rearranged in turn and with
fields under further names. -/
theorem covers_record {fields known extra others : List (String × Json)}
    (hperm : fields.Perm (known ++ extra)) (hkeys : known.map Prod.fst = others.map Prod.fst)
    (hvalues : List.Forall₂ Covers (known.map Prod.snd) (others.map Prod.snd))
    (hextra : ∀ f ∈ extra, f.1 ∉ others.map Prod.fst) : (record fields).Covers (record others) := by
  have hrecord := hperm.map fun f => (some f.1, f.2)
  rw [List.map_append] at hrecord
  refine .object hrecord ?_ (by simpa using hvalues) ?_
  · have hsome := congrArg (List.map some) hkeys
    simpa [Function.comp_def] using hsome
  · intro f hf
    obtain ⟨g, hg, rfl⟩ := List.mem_map.1 hf
    have hg := hextra g hg
    simpa using hg

theorem eq_of_covers_text {s : String} (h : j.Covers (.text s)) : j = .text s := by
  cases h
  rfl

theorem eq_of_covers_bool {b : Bool} (h : j.Covers (.bool b)) : j = .bool b := by
  cases h
  rfl

theorem eq_of_covers_ofNat {n : Nat} (h : j.Covers (.ofNat n)) : j = .ofNat n := by
  cases h
  rfl

theorem exists_of_covers_array {others : List Json} (h : j.Covers (.array others)) :
    ∃ items, j = .array items ∧ List.Forall₂ Covers items others := by
  cases h with
  | refl => exact ⟨others, rfl, List.forall₂_same.2 fun item _ => .refl item⟩
  | array hitems => exact ⟨_, rfl, hitems⟩

theorem mapM_of_forall₂ {α β : Type} {f : α → Option β} {xs : List α} {ys : List β}
    (h : List.Forall₂ (fun x y => f x = some y) xs ys) : xs.mapM f = some ys := by
  induction h with
  | nil => rfl
  | cons hx _ ih => simp [hx, ih]

theorem forall₂_of_mapM {α β : Type} {f : α → Option β} {xs : List α} {ys : List β}
    (h : xs.mapM f = some ys) : List.Forall₂ (fun x y => f x = some y) xs ys := by
  induction xs generalizing ys with
  | nil =>
      cases h
      exact .nil
  | cons x xs ih =>
      rw [List.mapM_cons] at h
      obtain ⟨y, hy, h⟩ := Option.bind_eq_some_iff.1 h
      obtain ⟨ys, hys, h⟩ := Option.bind_eq_some_iff.1 h
      cases h
      exact .cons hy (ih hys)

/-! ## The fields of a structure -/

theorem filter_key_eq_singleton {known : List (Option String × Json)} {f : Option String × Json}
    (hnodup : (known.map Prod.fst).Nodup) (hf : f ∈ known) :
    known.filter (fun g => g.1 == f.1) = [f] := by
  induction known with
  | nil => contradiction
  | cons g known ih =>
      obtain ⟨hfresh, hnodup⟩ := List.nodup_cons.1 hnodup
      rcases List.mem_cons.1 hf with rfl | hf
      · have hothers : known.filter (fun g => g.1 == f.1) = [] := by
          rw [List.filter_eq_nil_iff]
          intro g hg hkey
          exact hfresh (List.mem_map.2 ⟨g, hg, eq_of_beq hkey⟩)
        rw [List.filter_cons_of_pos (by simp), hothers]
      · have hne : ¬g.1 = f.1 := fun hkey => hfresh (hkey ▸ List.mem_map_of_mem hf)
        rw [List.filter_cons_of_neg (by simpa using hne), ih hnodup hf]

/-- The value of a key that stands once. -/
def only? (fields : List (Option String × Json)) (key : Option String) : Option Json :=
  match fields.filter fun f => f.1 == key with
  | [(_, value)] => some value
  | _ => none

theorem fields?_object {names : List String} {fields known extra : List (Option String × Json)}
    (hnodup : names.Nodup) (hperm : fields.Perm (known ++ extra))
    (hknown : known.map Prod.fst = names.map some)
    (hextra : ∀ f ∈ extra, f.1.isSome ∧ f.1 ∉ names.map some) :
    fields? names (.object fields) = some (known.map Prod.snd) := by
  have hkeys : (known.map Prod.fst).Nodup := by
    rw [hknown]
    exact hnodup.map fun _ _ => Option.some.inj
  have htexts : (fields.any fun f => f.1.isNone) = false := by
    rw [List.any_eq_false]
    intro f hf
    rcases List.mem_append.1 (hperm.mem_iff.1 hf) with hf | hf
    · have hmem : f.1 ∈ names.map some := hknown ▸ List.mem_map_of_mem hf
      obtain ⟨name, -, hname⟩ := List.mem_map.1 hmem
      simp [← hname]
    · obtain ⟨key, hkey⟩ := Option.isSome_iff_exists.1 (hextra f hf).1
      simp [hkey]
  have hfound : ∀ f ∈ known, (fields.filter fun g => g.1 == f.1) = [f] := by
    intro f hf
    have hothers : (extra.filter fun g => g.1 == f.1) = [] := by
      rw [List.filter_eq_nil_iff]
      intro g hg hkey
      have hmem : f.1 ∈ names.map some := hknown ▸ List.mem_map_of_mem hf
      exact (hextra g hg).2 (eq_of_beq hkey ▸ hmem)
    have hfilter := hperm.filter fun g => g.1 == f.1
    rw [List.filter_append, hothers, List.append_nil, filter_key_eq_singleton hkeys hf] at hfilter
    exact List.perm_singleton.1 hfilter
  have hvalues : (known.map Prod.fst).mapM (only? fields) = some (known.map Prod.snd) := by
    rw [List.mapM_map]
    apply mapM_of_forall₂
    rw [List.forall₂_map_right_iff, List.forall₂_same]
    intro f hf
    simp [only?, hfound f hf]
  rw [hknown, List.mapM_map] at hvalues
  simp only [fields?, htexts]
  exact hvalues

/-- The values of the fields of a structure, whatever is made of its object. -/
theorem fields?_of_covers {names : List String} {fields : List (String × Json)}
    (hnodup : names.Nodup) (h : j.Covers (.record fields)) (hnames : fields.map Prod.fst = names) :
    ∃ values, j.fields? names = some values ∧
      List.Forall₂ Covers values (fields.map Prod.snd) := by
  have hkeys : (fields.map fun f => (some f.1, f.2)).map Prod.fst = names.map some := by
    simp [← hnames]
  have hcontents : (fields.map fun f => (some f.1, f.2)).map Prod.snd = fields.map Prod.snd := by
    simp
  unfold record at h
  cases h with
  | refl =>
      have hperm : (fields.map fun f => (some f.1, f.2)).Perm
          ((fields.map fun f => (some f.1, f.2)) ++ []) := by rw [List.append_nil]
      refine ⟨_, fields?_object hnodup hperm hkeys (by simp), ?_⟩
      rw [hcontents]
      exact List.forall₂_same.2 fun value _ => .refl value
  | object hperm hknown hvalues hextra =>
      rw [hkeys] at hknown hextra
      rw [hcontents] at hvalues
      exact ⟨_, fields?_object hnodup hperm hknown hextra, hvalues⟩

end Json

end Dataflow
