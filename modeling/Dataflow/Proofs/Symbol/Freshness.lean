import Dataflow.Unit.Generated
import Mathlib.Data.List.Nodup
import Mathlib.Data.List.Perm.Subperm

/-!
# Names that are kept apart

A counter keeps a name apart from all names taken before, so the cells of a layout and the
functions of a unit have distinct names. The labels of units carry their number: functions of
differently numbered units never share a name.
-/

namespace Dataflow

namespace Symbol

theorem numbered_eq (base : String) (n : Nat) : numbered base n = base ++ " #" ++ toString n :=
  rfl

theorem toDigits_injective : Function.Injective (Nat.toDigits 10) := by
  intro m n h
  calc
    m = Nat.ofDigitChars 10 (Nat.toDigits 10 m) 0 := Nat.ofDigitChars_ten_toDigits.symm
    _ = Nat.ofDigitChars 10 (Nat.toDigits 10 n) 0 := by rw [h]
    _ = n := Nat.ofDigitChars_ten_toDigits

theorem numbered_injective (base : String) : Function.Injective (numbered base) := by
  intro m n h
  have hlists : base.toList ++ " #".toList ++ Nat.toDigits 10 m =
      base.toList ++ " #".toList ++ Nat.toDigits 10 n := by
    simpa only [numbered_eq, String.toList_append, Nat.toString_eq_repr, Nat.toList_repr] using
      congrArg String.toList h
  exact toDigits_injective (List.append_cancel_left hlists)

/-- Not all candidates can be taken: there is one more of them than there are names. -/
theorem exists_candidate (base : String) (taken : List String) :
    ∃ s ∈ (List.range' 2 (taken.length + 1)).map (numbered base), s ∉ taken := by
  by_contra hnone
  push Not at hnone
  have hnodup : ((List.range' 2 (taken.length + 1)).map (numbered base)).Nodup :=
    List.Nodup.map (numbered_injective base) List.nodup_range'
  have hle := (List.subperm_of_subset hnodup hnone).length_le
  rw [List.length_map, List.length_range'] at hle
  omega

theorem unique_not_mem (base : String) (taken : List String) : unique base taken ∉ taken := by
  unfold unique
  split
  · obtain ⟨s, hs, hfree⟩ := exists_candidate base taken
    have hfound : (((List.range' 2 (taken.length + 1)).map (numbered base)).find? fun s =>
        !taken.contains s).isSome := by
      rw [List.find?_isSome]
      exact ⟨s, hs, by simpa using hfree⟩
    obtain ⟨found, hfind⟩ := Option.isSome_iff_exists.1 hfound
    rw [hfind, Option.getD_some]
    simpa using List.find?_some hfind
  · rename_i hbase
    simpa using hbase

theorem exists_unique_eq (base : String) (taken : List String) :
    ∃ rest, unique base taken = base ++ rest := by
  unfold unique
  split
  · cases hfind : ((List.range' 2 (taken.length + 1)).map (numbered base)).find?
      fun s => !taken.contains s with
    | none => exact ⟨"", by simp⟩
    | some s =>
        obtain ⟨k, -, rfl⟩ := List.mem_map.1 (List.mem_of_find?_eq_some hfind)
        exact ⟨" #" ++ toString k, by rw [Option.getD_some, numbered_eq, String.append_assoc]⟩
  · exact ⟨"", by simp⟩

end Symbol

/-! ## Cells -/

theorem StorageLayout.nodup_addCells {cells : List StorageCell}
    (h : (cells.map StorageCell.symbol).Nodup) (inputs : List (Node × Port)) :
    ((addCells cells inputs).map StorageCell.symbol).Nodup := by
  induction inputs generalizing cells with
  | nil => exact h
  | cons input inputs ih =>
      obtain ⟨n, p⟩ := input
      unfold addCells
      split
      · exact ih h
      · apply ih
        rw [List.map_append, List.map_singleton, List.nodup_append]
        refine ⟨h, List.nodup_singleton _, ?_⟩
        intro s hs s' hs'
        rw [List.mem_singleton.1 hs']
        exact fun heq => Symbol.unique_not_mem _ _ (heq ▸ hs)

theorem StorageLayout.nodup_symbols (g : Graph) (ix : Index) :
    ((build g ix).cells.map StorageCell.symbol).Nodup :=
  @nodup_addCells [] List.nodup_nil _

/-! ## Functions of a unit -/

variable {label name : String} {taken : List String} {nodes : List Node} {n : Node}

theorem map_fst_nodeSymbols (label : String) (taken : List String) (nodes : List Node) :
    (nodeSymbols label taken nodes).map Prod.fst = nodes := by
  induction nodes generalizing taken with
  | nil => rfl
  | cons n nodes ih =>
      unfold nodeSymbols
      rw [List.map_cons, ih]

theorem nodeSymbols_apart (label : String) (taken : List String) (nodes : List Node) :
    ((nodeSymbols label taken nodes).map Prod.snd).Nodup ∧
      ∀ name ∈ (nodeSymbols label taken nodes).map Prod.snd, name ∉ taken := by
  induction nodes generalizing taken with
  | nil => exact ⟨List.nodup_nil, by simp [nodeSymbols]⟩
  | cons n nodes ih =>
      unfold nodeSymbols
      simp only [List.map_cons, List.nodup_cons, List.mem_cons]
      obtain ⟨hnodup, hfree⟩ := ih
        (Symbol.unique (label ++ "::" ++ Symbol.sanitize n.name) taken :: taken)
      refine ⟨⟨fun hmem => hfree _ hmem List.mem_cons_self, hnodup⟩, ?_⟩
      rintro name (rfl | hname)
      · exact Symbol.unique_not_mem _ _
      · exact fun hmem => hfree name hname (List.mem_cons_of_mem _ hmem)

theorem exists_of_mem_nodeSymbols (h : (n, name) ∈ nodeSymbols label taken nodes) :
    ∃ rest, name = label ++ "::" ++ rest := by
  induction nodes generalizing taken with
  | nil => contradiction
  | cons first nodes ih =>
      unfold nodeSymbols at h
      rcases List.mem_cons.1 h with h | h
      · cases h
        obtain ⟨rest, hrest⟩ := Symbol.exists_unique_eq (label ++ "::" ++ Symbol.sanitize n.name)
          taken
        exact ⟨Symbol.sanitize n.name ++ rest, by rw [hrest]; simp [String.append_assoc]⟩
      · exact ih h

theorem toList_unitLabel (k : Nat) (r : UnitRequest) (rest : String) :
    (unitLabel k r ++ rest).toList =
      "nodejit".toList ++ (Nat.toDigits 10 k ++ '[' :: (r.stem ++ "]" ++ rest).toList) := by
  change ("nodejit" ++ toString k ++ "[" ++ r.stem ++ "]" ++ rest).toList = _
  simp [String.toList_append]

/-- The number of a unit can be read off the names of its functions. -/
theorem sequence_eq_of_label {j k : Nat} {q r : UnitRequest} {s t : String}
    (h : unitLabel j q ++ s = unitLabel k r ++ t) : j = k := by
  have hdigits : ∀ m (rest : List Char),
      (Nat.toDigits 10 m ++ '[' :: rest).takeWhile Char.isDigit = Nat.toDigits 10 m := by
    intro m rest
    rw [List.takeWhile_append_of_pos]
    · simp [Char.isDigit]
    · intro c hc
      exact Nat.isDigit_of_mem_toDigits (by decide) (by decide) hc
  have hlists := congrArg String.toList h
  rw [toList_unitLabel, toList_unitLabel] at hlists
  have htails := List.append_cancel_left hlists
  apply Symbol.toDigits_injective
  rw [← hdigits j, htails, hdigits]

end Dataflow
