import Dataflow.Proofs.Json.Numerals
import Dataflow.Proofs.Json.Strings
import Mathlib.Data.List.DropRight

/-!
# Texts of JSON values

`Json.ValueText` lists the texts of a value, with blanks around each piece. The reader gives back
every value from every one of its texts, and the compact form of a value is one of them.
-/

namespace Dataflow

namespace Json

def Blanks (text : List Char) : Prop := ∀ c ∈ text, isBlank c

/-- The texts of a key, with blanks around it. -/
inductive KeyText : Option String → List Char → Prop
  | intro {key : Option String} {before text after : List Char} (hbefore : Blanks before)
      (hkey : StringText key text) (hafter : Blanks after) :
      KeyText key (before ++ (text ++ after))

mutual

/-- The texts of a value. -/
inductive ValueText : Json → List Char → Prop
  | null : ValueText .null "null".toList
  | truth : ValueText (.bool true) "true".toList
  | falsity : ValueText (.bool false) "false".toList
  | number {n : Numeral} {text : List Char} (hnumeral : n.Written text) :
      ValueText (.number n) text
  | string {s : Option String} {text : List Char} (hstring : StringText s text) :
      ValueText (.string s) text
  | emptyArray {blanks : List Char} (hblanks : Blanks blanks) :
      ValueText (.array []) ('[' :: (blanks ++ [']']))
  | array {items : List Json} {text : List Char} (hitems : ItemsText items text) :
      ValueText (.array items) ('[' :: (text ++ [']']))
  | emptyObject {blanks : List Char} (hblanks : Blanks blanks) :
      ValueText (.object []) ('\x7b' :: (blanks ++ ['\x7d']))
  | object {fields : List (Option String × Json)} {text : List Char}
      (hfields : FieldsText fields text) :
      ValueText (.object fields) ('\x7b' :: (text ++ ['\x7d']))

/-- The texts of a value, with blanks around it. -/
inductive PaddedText : Json → List Char → Prop
  | intro {j : Json} {before text after : List Char} (hbefore : Blanks before)
      (hvalue : ValueText j text) (hafter : Blanks after) :
      PaddedText j (before ++ (text ++ after))

/-- The texts of items between brackets. -/
inductive ItemsText : List Json → List Char → Prop
  | last {item : Json} {text : List Char} (hitem : PaddedText item text) :
      ItemsText [item] text
  | cons {item : Json} {items : List Json} {text others : List Char}
      (hitem : PaddedText item text) (hitems : ItemsText items others) :
      ItemsText (item :: items) (text ++ ',' :: others)

/-- The texts of fields between braces. -/
inductive FieldsText : List (Option String × Json) → List Char → Prop
  | last {key : Option String} {value : Json} {keyText text : List Char}
      (hkey : KeyText key keyText) (hvalue : PaddedText value text) :
      FieldsText [(key, value)] (keyText ++ ':' :: text)
  | cons {key : Option String} {value : Json} {fields : List (Option String × Json)}
      {keyText text others : List Char} (hkey : KeyText key keyText)
      (hvalue : PaddedText value text) (hfields : FieldsText fields others) :
      FieldsText ((key, value) :: fields) (keyText ++ ':' :: (text ++ ',' :: others))

end

/-- A text of a value and nothing else. -/
def IsText (j : Json) (text : String) : Prop := PaddedText j text.toList

/-- What may stand behind a value inside a text. -/
def FollowsValue (rest : List Char) : Prop :=
  ∀ c ∈ rest.head?, isBlank c ∨ c = ',' ∨ c = ']' ∨ c = '\x7d'

variable {fuel : Nat} {c : Char} {before text rest : List Char}

/-! ## Blanks -/

theorem skipBlanks_append (hbefore : Blanks before) (text : List Char) :
    skipBlanks (before ++ text) = skipBlanks text :=
  List.dropWhile_append_of_pos hbefore

theorem skipBlanks_cons (hc : isBlank c = false) (text : List Char) :
    skipBlanks (c :: text) = c :: text := by
  rw [skipBlanks, List.dropWhile_cons_of_neg (by simp [hc])]

theorem skipBlanks_before (hbefore : Blanks before) (hc : isBlank c = false) (text : List Char) :
    skipBlanks (before ++ c :: text) = c :: text := by
  rw [skipBlanks_append hbefore, skipBlanks_cons hc]

theorem skipBlanks_skipBlanks (text : List Char) :
    skipBlanks (skipBlanks text) = skipBlanks text :=
  List.dropWhile_idempotent _ _

theorem readValue_skipBlanks (fuel : Nat) (text : List Char) :
    readValue fuel (skipBlanks text) = readValue fuel text := by
  cases fuel with
  | zero => rfl
  | succ fuel => rw [readValue, readValue, skipBlanks_skipBlanks]

theorem readItems_skipBlanks (fuel : Nat) (text : List Char) :
    readItems fuel (skipBlanks text) = readItems fuel text := by
  cases fuel with
  | zero => rfl
  | succ fuel => rw [readItems, readItems, readValue_skipBlanks]

theorem readFields_skipBlanks (fuel : Nat) (text : List Char) :
    readFields fuel (skipBlanks text) = readFields fuel text := by
  cases fuel with
  | zero => rfl
  | succ fuel => rw [readFields, readFields, skipBlanks_skipBlanks]

/-! ## First characters and what follows -/

theorem FollowsValue.leavesNumber (h : FollowsValue rest) : LeavesNumber rest := by
  have hblanks : ∀ c, isBlank c → c = ' ' ∨ c = '\n' ∨ c = '\t' ∨ c = '\r' := by
    intro c hc
    simpa [isBlank, or_assoc] using hc
  intro c hc
  rcases h c hc with hblank | rfl | rfl | rfl
  · rcases hblanks c hblank with rfl | rfl | rfl | rfl <;> decide
  all_goals decide

theorem FollowsValue.behind (hrest : FollowsValue rest) {blanks : List Char}
    (hblanks : Blanks blanks) : FollowsValue (blanks ++ rest) := by
  cases blanks with
  | nil => exact hrest
  | cons c blanks =>
      rintro c ⟨⟩
      exact .inl (hblanks c List.mem_cons_self)

/-- What a number begins with. -/
def StartsNumber (c : Char) : Prop := c = '-' ∨ c.isDigit

instance : DecidablePred StartsNumber := fun c => inferInstanceAs (Decidable (c = '-' ∨ c.isDigit))

theorem StartsNumber.ne (hc : StartsNumber c) (other : Char) (hother : ¬StartsNumber other) :
    c ≠ other := by
  rintro rfl
  exact hother hc

theorem StartsNumber.not_blank (hc : StartsNumber c) : isBlank c = false := by
  have hspace := hc.ne ' ' (by decide)
  have hline := hc.ne '\n' (by decide)
  have htab := hc.ne '\t' (by decide)
  have hreturn := hc.ne '\r' (by decide)
  simp [isBlank, hspace, hline, htab, hreturn]

theorem exists_startsNumber {n : Numeral} (h : n.Written text) :
    ∃ c cs, text = c :: cs ∧ StartsNumber c := by
  obtain ⟨negative, hwhole, hfraction, hexponent⟩ := h
  cases negative with
  | true => exact ⟨_, _, rfl, .inl rfl⟩
  | false =>
      obtain ⟨d, ds, rfl⟩ := List.exists_cons_of_ne_nil hwhole.1.1
      exact ⟨d, _, rfl, .inr (hwhole.1.2 d List.mem_cons_self)⟩

theorem readValue_of_startsNumber (hc : StartsNumber c) (cs : List Char) :
    readValue (fuel + 1) (c :: cs) =
      (readNumeral (c :: cs)).map fun (n, rest) => (.number n, rest) := by
  rw [readValue, skipBlanks_cons hc.not_blank]
  have hn := hc.ne 'n' (by decide)
  have ht := hc.ne 't' (by decide)
  have hf := hc.ne 'f' (by decide)
  have hquote := hc.ne '"' (by decide)
  have hbracket := hc.ne '[' (by decide)
  have hbrace := hc.ne '\x7b' (by decide)
  simp [hn, ht, hf, hquote, hbracket, hbrace]

/-- A value begins neither with a blank nor with the end of an array. -/
theorem exists_head_of_valueText {j : Json} (h : ValueText j text) :
    ∃ c cs, text = c :: cs ∧ isBlank c = false ∧ c ≠ ']' := by
  cases h with
  | number hnumeral =>
      obtain ⟨c, cs, rfl, hc⟩ := exists_startsNumber hnumeral
      exact ⟨c, cs, rfl, hc.not_blank, hc.ne ']' (by decide)⟩
  | string hstring =>
      obtain ⟨units, body, rfl, -⟩ := hstring
      exact ⟨_, _, rfl, by decide⟩
  | _ => exact ⟨_, _, rfl, by decide⟩

/-! ## Reading -/

/-- With this much fuel the reader takes every text that is shorter off the front, whatever
follows. -/
structure ReadsShorter (fuel : Nat) : Prop where
  value {j : Json} {text rest : List Char} (hvalue : ValueText j text)
    (hrest : FollowsValue rest) (hfuel : text.length < fuel) :
    readValue fuel (text ++ rest) = some (j, rest)
  items {items : List Json} {text : List Char} (hitems : ItemsText items text)
    (rest : List Char) (hfuel : text.length + 1 < fuel) :
    readItems fuel (text ++ ']' :: rest) = some (items, rest)
  fields {fields : List (Option String × Json)} {text : List Char}
    (hfields : FieldsText fields text) (rest : List Char) (hfuel : text.length + 1 < fuel) :
    readFields fuel (text ++ '\x7d' :: rest) = some (fields, rest)

variable {j : Json} {items : List Json} {fields : List (Option String × Json)}

theorem readsShorter_zero : ReadsShorter 0 where
  value _ _ hfuel := absurd hfuel (Nat.not_lt_zero _)
  items _ _ hfuel := absurd hfuel (Nat.not_lt_zero _)
  fields _ _ hfuel := absurd hfuel (Nat.not_lt_zero _)

theorem ReadsShorter.padded (h : ReadsShorter fuel) (htext : PaddedText j text)
    (hrest : FollowsValue rest) (hfuel : text.length < fuel) :
    ∃ after, Blanks after ∧ readValue fuel (text ++ rest) = some (j, after ++ rest) := by
  -- the blanks behind the value are left to whoever reads on
  obtain ⟨hbefore, hvalue, hafter⟩ := htext
  rename_i before text after
  refine ⟨after, hafter, ?_⟩
  rw [← readValue_skipBlanks, List.append_assoc, skipBlanks_append hbefore, readValue_skipBlanks,
    List.append_assoc]
  refine h.value hvalue (hrest.behind hafter) ?_
  simp only [List.length_append] at hfuel
  omega

theorem exists_head_of_paddedText (h : PaddedText j text) (rest : List Char) :
    ∃ c cs, skipBlanks (text ++ rest) = c :: cs ∧ c ≠ ']' := by
  obtain ⟨hbefore, hvalue, -⟩ := h
  obtain ⟨c, cs, rfl, hblank, hend⟩ := exists_head_of_valueText hvalue
  simp only [List.append_assoc, List.cons_append]
  exact ⟨c, _, skipBlanks_before hbefore hblank _, hend⟩

/-- The items of an array are not taken for its end. -/
theorem exists_head_of_itemsText (h : ItemsText items text) (rest : List Char) :
    ∃ c cs, skipBlanks (text ++ rest) = c :: cs ∧ c ≠ ']' := by
  cases h with
  | last hitem => exact exists_head_of_paddedText hitem rest
  | cons hitem hitems =>
      rw [List.append_assoc]
      exact exists_head_of_paddedText hitem _

theorem KeyText.read {key : Option String} (h : KeyText key text) (rest : List Char) :
    ∃ body after, skipBlanks (text ++ rest) = '"' :: body ∧ Blanks after ∧
      readText body = some (key, after ++ rest) := by
  obtain ⟨hbefore, hkey, hafter⟩ := h
  obtain ⟨body, rfl, hread⟩ := readText_of_stringText hkey
  refine ⟨_, _, ?_, hafter, hread _⟩
  simp only [List.append_assoc, List.cons_append]
  exact skipBlanks_before hbefore (by decide) _

/-- The fields of an object are not taken for its end. -/
theorem exists_head_of_fieldsText (h : FieldsText fields text) (rest : List Char) :
    ∃ cs, skipBlanks (text ++ rest) = '"' :: cs := by
  cases h with
  | last hkey hvalue =>
      obtain ⟨body, -, hskip, -⟩ := hkey.read (':' :: _ ++ rest)
      exact ⟨body, by rwa [List.append_assoc]⟩
  | cons hkey hvalue hfields =>
      obtain ⟨body, -, hskip, -⟩ := hkey.read (':' :: _ ++ rest)
      exact ⟨body, by rwa [List.append_assoc]⟩

theorem ReadsShorter.value_succ (h : ReadsShorter fuel) (hvalue : ValueText j text)
    (hrest : FollowsValue rest) (hfuel : text.length < fuel + 1) :
    readValue (fuel + 1) (text ++ rest) = some (j, rest) := by
  cases hvalue with
  | null => rfl
  | truth => rfl
  | falsity => rfl
  | number hnumeral =>
      obtain ⟨c, cs, rfl, hc⟩ := exists_startsNumber hnumeral
      have hread := readNumeral_append hnumeral hrest.leavesNumber
      rw [List.cons_append] at hread ⊢
      rw [readValue_of_startsNumber hc, hread, Option.map_some]
  | string hstring =>
      obtain ⟨body, rfl, hread⟩ := readText_of_stringText hstring
      rw [List.cons_append, readValue, skipBlanks_cons (by decide)]
      simp [hread]
  | emptyArray hblanks =>
      have hskip := skipBlanks_before hblanks (c := ']') (by decide) rest
      rw [List.cons_append, readValue, skipBlanks_cons (by decide)]
      simp [hskip]
  | array hitems =>
      rename_i items text
      have hread := h.items hitems rest (by simp at hfuel; omega)
      obtain ⟨c, cs, hskip, hc⟩ := exists_head_of_itemsText hitems (']' :: rest)
      rw [← readItems_skipBlanks, hskip] at hread
      rw [List.cons_append, readValue, skipBlanks_cons (by decide)]
      simp [hskip, hc, hread]
  | emptyObject hblanks =>
      have hskip := skipBlanks_before hblanks (c := '\x7d') (by decide) rest
      rw [List.cons_append, readValue, skipBlanks_cons (by decide)]
      simp [hskip]
  | object hfields =>
      rename_i fields text
      have hread := h.fields hfields rest (by simp at hfuel; omega)
      obtain ⟨cs, hskip⟩ := exists_head_of_fieldsText hfields ('\x7d' :: rest)
      rw [← readFields_skipBlanks, hskip] at hread
      rw [List.cons_append, readValue, skipBlanks_cons (by decide)]
      simp [hskip, hread]

theorem ReadsShorter.items_succ (h : ReadsShorter fuel) (hitems : ItemsText items text)
    (rest : List Char) (hfuel : text.length + 1 < fuel + 1) :
    readItems (fuel + 1) (text ++ ']' :: rest) = some (items, rest) := by
  cases hitems with
  | last hitem =>
      have hrest : FollowsValue (']' :: rest) := by rintro c ⟨⟩; decide
      obtain ⟨after, hafter, hread⟩ := h.padded hitem hrest (by omega)
      have hskip := skipBlanks_before hafter (c := ']') (by decide) rest
      simp [readItems, hread, hskip]
  | @cons item items text others hitem hitems =>
      simp only [List.length_append, List.length_cons] at hfuel
      have hcomma : FollowsValue (',' :: (others ++ ']' :: rest)) := by rintro c ⟨⟩; decide
      obtain ⟨after, hafter, hread⟩ := h.padded hitem hcomma (by omega)
      have hskip := skipBlanks_before hafter (c := ',') (by decide) (others ++ ']' :: rest)
      have hothers := h.items hitems rest (by omega)
      simp [readItems, hread, hskip, hothers]

theorem ReadsShorter.fields_succ (h : ReadsShorter fuel) (hfields : FieldsText fields text)
    (rest : List Char) (hfuel : text.length + 1 < fuel + 1) :
    readFields (fuel + 1) (text ++ '\x7d' :: rest) = some (fields, rest) := by
  cases hfields with
  | @last key value keyText text hkey hvalue =>
      simp only [List.length_append, List.length_cons] at hfuel
      have hrest : FollowsValue ('\x7d' :: rest) := by rintro c ⟨⟩; decide
      obtain ⟨body, afterKey, hskipKey, hafterKey, hreadKey⟩ :=
        hkey.read (':' :: (text ++ '\x7d' :: rest))
      have hskipColon := skipBlanks_before hafterKey (c := ':') (by decide) (text ++ '\x7d' :: rest)
      obtain ⟨after, hafter, hread⟩ := h.padded hvalue hrest (by omega)
      have hskip := skipBlanks_before hafter (c := '\x7d') (by decide) rest
      rw [List.append_assoc, List.cons_append, readFields, hskipKey]
      simp [hreadKey, hskipColon, hread, hskip]
  | @cons key value fields keyText text others hkey hvalue hfields =>
      simp only [List.length_append, List.length_cons] at hfuel
      have hcomma : FollowsValue (',' :: (others ++ '\x7d' :: rest)) := by rintro c ⟨⟩; decide
      obtain ⟨body, afterKey, hskipKey, hafterKey, hreadKey⟩ :=
        hkey.read (':' :: (text ++ ',' :: (others ++ '\x7d' :: rest)))
      have hskipColon := skipBlanks_before hafterKey (c := ':') (by decide)
        (text ++ ',' :: (others ++ '\x7d' :: rest))
      obtain ⟨after, hafter, hread⟩ := h.padded hvalue hcomma (by omega)
      have hskip := skipBlanks_before hafter (c := ',') (by decide) (others ++ '\x7d' :: rest)
      have hothers := h.fields hfields rest (by omega)
      rw [List.append_assoc, List.cons_append, List.append_assoc, List.cons_append, readFields,
        hskipKey]
      simp [hreadKey, hskipColon, hread, hskip, hothers]

theorem readsShorter (fuel : Nat) : ReadsShorter fuel := by
  -- a value's items are shorter by both brackets: one unit for them and one for the first of them
  induction fuel with
  | zero => exact readsShorter_zero
  | succ fuel ih => exact ⟨ih.value_succ, ih.items_succ, ih.fields_succ⟩

/-- Each text of a value is read as that value. -/
theorem parse?_of_isText {text : String} (h : j.IsText text) : parse? text = some j := by
  have hrest : FollowsValue [] := by rintro c ⟨⟩
  obtain ⟨after, hafter, hread⟩ :=
    (readsShorter (text.toList.length + 1)).padded h hrest (Nat.lt_succ_self _)
  have hskip : skipBlanks (after ++ []) = [] := skipBlanks_append hafter []
  rw [List.append_nil] at hread hskip
  simp [parse?, hread, hskip]

/-! ## The compact form -/

/-- Made of texts: no string or key with half a character, and numbers as they are written. -/
inductive Printable : Json → Prop
  | null : Printable .null
  | bool (b : Bool) : Printable (.bool b)
  | number {n : Numeral} (hn : n.Written n.chars) : Printable (.number n)
  | text (s : String) : Printable (.text s)
  | array {items : List Json} (hitems : ∀ item ∈ items, Printable item) : Printable (.array items)
  | record {fields : List (String × Json)} (hfields : ∀ f ∈ fields, Printable f.2) :
      Printable (.record fields)

theorem ValueText.padded (h : ValueText j text) : PaddedText j text := by
  have hblanks : Blanks [] := by simp [Blanks]
  simpa using PaddedText.intro hblanks h hblanks

theorem keyText_quoted (key : String) : KeyText (some key) (quoted key) := by
  have hblanks : Blanks [] := by simp [Blanks]
  simpa using KeyText.intro hblanks (stringText_quoted key) hblanks

theorem itemsText_printItems (hne : items ≠ [])
    (hitems : ∀ item ∈ items, ValueText item item.print) :
    ItemsText items (printItems items) := by
  induction items with
  | nil => contradiction
  | cons item items ih =>
      obtain ⟨hitem, hothers⟩ := List.forall_mem_cons.1 hitems
      cases items with
      | nil => exact .last hitem.padded
      | cons next items => exact .cons hitem.padded (ih (List.cons_ne_nil _ _) hothers)

theorem fieldsText_printFields {fields : List (String × Json)} (hne : fields ≠ [])
    (hfields : ∀ f ∈ fields, ValueText f.2 f.2.print) :
    FieldsText (fields.map fun f => (some f.1, f.2))
      (printFields (fields.map fun f => (some f.1, f.2))) := by
  induction fields with
  | nil => contradiction
  | cons f fields ih =>
      obtain ⟨hf, hothers⟩ := List.forall_mem_cons.1 hfields
      cases fields with
      | nil => exact .last (keyText_quoted f.1) hf.padded
      | cons next fields =>
          exact .cons (keyText_quoted f.1) hf.padded (ih (List.cons_ne_nil _ _) hothers)

theorem valueText_print (h : Printable j) : ValueText j j.print := by
  have hblanks : Blanks [] := by simp [Blanks]
  induction h with
  | null => exact .null
  | bool b =>
      cases b with
      | false => exact .falsity
      | true => exact .truth
  | number hn => exact .number hn
  | text s => exact .string (stringText_quoted s)
  | @array items _ ih =>
      cases items with
      | nil => exact .emptyArray hblanks
      | cons item items => exact .array (itemsText_printItems (List.cons_ne_nil _ _) ih)
  | @record fields _ ih =>
      cases fields with
      | nil => exact .emptyObject hblanks
      | cons f fields => exact .object (fieldsText_printFields (List.cons_ne_nil _ _) ih)

theorem isText_compact (h : Printable j) : j.IsText j.compact := by
  rw [IsText, compact, String.toList_ofList]
  exact (valueText_print h).padded

end Json

end Dataflow
