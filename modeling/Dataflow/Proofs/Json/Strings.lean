import Dataflow.Json.Parse

/-!
# Texts of strings

`Json.StringText` lists the texts of a string: a character stands for itself, or behind a backslash
by its letter, by the four hexadecimal digits of its code or, past the first plane, by those of two
halves. The reader takes each of them off the front of a text and gives the string, and the quoted
form of a string is one of them.
-/

namespace Dataflow

namespace Json

/-- The letters of the short escapes, and the characters they stand for. -/
def shortEscapes : List (Char × Char) :=
  [('"', '"'), ('\\', '\\'), ('/', '/'), ('b', '\x08'), ('f', '\x0c'), ('n', '\n'), ('r', '\r'),
    ('t', '\t')]

/-- A hexadecimal digit in either case. -/
def HexDigit (n : Nat) (c : Char) : Prop :=
  n < 16 ∧ (c = Nat.digitChar n ∨ c = (Nat.digitChar n).toUpper)

/-- What stands between the quotation marks for code points and 16-bit units. -/
inductive Escaped : List Nat → List Char → Prop
  | nil : Escaped [] []
  | plain {char : Char} {units : List Nat} {body : List Char} (hcontrol : 32 ≤ char.toNat)
      (hquote : char ≠ '"') (hbackslash : char ≠ '\\') (hbody : Escaped units body) :
      Escaped (char.toNat :: units) (char :: body)
  | short {letter char : Char} {units : List Nat} {body : List Char}
      (hletter : (letter, char) ∈ shortEscapes) (hbody : Escaped units body) :
      Escaped (char.toNat :: units) ('\\' :: letter :: body)
  | unit {unit w x y z : Nat} {a b c d : Char} {units : List Nat} {body : List Char}
      (ha : HexDigit w a) (hb : HexDigit x b) (hc : HexDigit y c) (hd : HexDigit z d)
      (hunit : unit = ((w * 16 + x) * 16 + y) * 16 + z) (hbody : Escaped units body) :
      Escaped (unit :: units) ('\\' :: 'u' :: a :: b :: c :: d :: body)

/-- The code points and units of a text. A character past the first plane may be two halves. -/
inductive Codes : List Char → List Nat → Prop
  | nil : Codes [] []
  | code {chars : List Char} {units : List Nat} (char : Char) (hunits : Codes chars units) :
      Codes (char :: chars) (char.toNat :: units)
  | pair {high low : Nat} {char : Char} {chars : List Char} {units : List Nat}
      (hhigh : 0xD800 ≤ high ∧ high < 0xDC00) (hlow : 0xDC00 ≤ low ∧ low < 0xE000)
      (hchar : char.toNat = 0x10000 + (high - 0xD800) * 0x400 + (low - 0xDC00))
      (hunits : Codes chars units) : Codes (char :: chars) (high :: low :: units)

/-- The texts of a string. One that is not made of characters has texts too. -/
def StringText (s : Option String) (text : List Char) : Prop :=
  ∃ units body, text = '"' :: (body ++ ['"']) ∧ Escaped units body ∧
    ∀ t, s = some t ↔ Codes t.toList units

variable {units : List Nat} {chars body rest : List Char}

/-! ## Escapes -/

theorem hexValue?_of_hexDigit {n : Nat} {c : Char} (h : HexDigit n c) : hexValue? c = some n := by
  have hvalues : ∀ n < 16, hexValue? (Nat.digitChar n) = some n ∧
      hexValue? (Nat.digitChar n).toUpper = some n := by decide
  obtain ⟨hn, rfl | rfl⟩ := h
  · exact (hvalues n hn).1
  · exact (hvalues n hn).2

theorem simpleEscape?_of_mem {letter char : Char} (h : (letter, char) ∈ shortEscapes) :
    simpleEscape? letter = some char := by
  have hall : ∀ entry ∈ shortEscapes, simpleEscape? entry.1 = some entry.2 := by decide
  exact hall _ h

theorem readString_append (h : Escaped units body) :
    readString (body ++ '"' :: rest) = some (units, rest) := by
  induction h with
  | nil => rfl
  | @plain char units body hcontrol hquote hbackslash hbody ih =>
      have hge : ¬char.toNat < 32 := by omega
      simp [readString, hbackslash, hge, ih]
  | @short letter char units body hletter hbody ih =>
      have hu : letter ≠ 'u' := by rintro rfl; simp [shortEscapes] at hletter
      simp [readString, hu, simpleEscape?_of_mem hletter, ih]
  | unit ha hb hc hd hunit hbody ih =>
      simp [readString, unit?, hexValue?_of_hexDigit ha, hexValue?_of_hexDigit hb,
        hexValue?_of_hexDigit hc, hexValue?_of_hexDigit hd, ih, hunit]

/-! ## Halves of characters -/

theorem char_toNat_cases (c : Char) : c.toNat < 0xD800 ∨ 0xDFFF < c.toNat ∧ c.toNat < 0x110000 :=
  c.valid

theorem char_toNat_lt (c : Char) : c.toNat < 0x110000 := by
  have hcases := char_toNat_cases c
  omega

theorem isHalf_toNat (c : Char) : isHighHalf c.toNat = false ∧ isLowHalf c.toNat = false := by
  have hcases := char_toNat_cases c
  simp only [isHighHalf, isLowHalf, Bool.and_eq_false_iff, decide_eq_false_iff_not]
  omega

theorem joinHalves_cons {n : Nat} (hhigh : isHighHalf n = false) (hlow : isLowHalf n = false)
    (units : List Nat) : joinHalves (n :: units) = (joinHalves units).map (Char.ofNat n :: ·) := by
  cases units with
  | nil => simp [joinHalves, hhigh, hlow]
  | cons m units => simp [joinHalves, hhigh, hlow]

theorem joinHalves_of_codes (h : Codes chars units) : joinHalves units = some chars := by
  induction h with
  | nil => rfl
  | code char hunits ih =>
      obtain ⟨hhigh, hlow⟩ := isHalf_toNat char
      rw [joinHalves_cons hhigh hlow, ih, Char.ofNat_toNat, Option.map_some]
  | @pair high low char chars units hhigh hlow hchar hunits ih =>
      have hisHigh : isHighHalf high := by simpa [isHighHalf] using hhigh
      have hisLow : isLowHalf low := by simpa [isLowHalf] using hlow
      rw [joinHalves, if_pos hisHigh, if_pos hisLow, ih, ← hchar, Char.ofNat_toNat,
        Option.map_some]

theorem char_toNat_ofNat {n : Nat} (h : n.isValidChar) : (Char.ofNat n).toNat = n := by
  rw [Char.ofNat, dif_pos h]
  rfl

theorem codes_cons {n : Nat} (hvalid : n.isValidChar) (h : Codes chars units) :
    Codes (Char.ofNat n :: chars) (n :: units) := by
  have hcodes := Codes.code (Char.ofNat n) h
  rwa [char_toNat_ofNat hvalid] at hcodes

theorem isValidChar_of_not_half {n : Nat} (hn : n < 0x110000) (hhigh : ¬isHighHalf n)
    (hlow : ¬isLowHalf n) : n.isValidChar := by
  simp only [isHighHalf, isLowHalf, Bool.and_eq_true, decide_eq_true_eq] at hhigh hlow
  unfold Nat.isValidChar
  omega

theorem codes_of_joinHalves (hunits : ∀ n ∈ units, n < 0x110000)
    (h : joinHalves units = some chars) : Codes chars units := by
  fun_induction joinHalves units generalizing chars with
  | case1 =>
      cases h
      exact .nil
  | case2 high low units hhigh hlow ih =>
      obtain ⟨chars, hchars, rfl⟩ := Option.map_eq_some_iff.1 h
      have hcodes := ih (fun n hn => hunits n (by simp [hn])) hchars
      simp only [isHighHalf, isLowHalf, Bool.and_eq_true, decide_eq_true_eq] at hhigh hlow
      refine .pair hhigh hlow (char_toNat_ofNat ?_) hcodes
      unfold Nat.isValidChar
      omega
  | case3 => contradiction -- a high half before no low one
  | case4 => contradiction -- a low half first
  | case5 n m units hhigh hlow ih =>
      obtain ⟨chars, hchars, rfl⟩ := Option.map_eq_some_iff.1 h
      have hvalid := isValidChar_of_not_half (hunits n List.mem_cons_self) hhigh hlow
      exact codes_cons hvalid (ih (fun k hk => hunits k (List.mem_cons_of_mem n hk)) hchars)
  | case6 => contradiction
  | case7 n hn =>
      cases h
      rw [Bool.or_eq_true, not_or] at hn
      have hvalid := isValidChar_of_not_half (hunits n List.mem_cons_self) hn.1 hn.2
      exact codes_cons hvalid .nil

theorem units_lt (h : Escaped units body) : ∀ n ∈ units, n < 0x110000 := by
  induction h with
  | nil => simp
  | @plain char _ _ _ _ _ _ ih => exact List.forall_mem_cons.2 ⟨char_toNat_lt char, ih⟩
  | @short _ char _ _ _ _ ih => exact List.forall_mem_cons.2 ⟨char_toNat_lt char, ih⟩
  | unit ha hb hc hd hunit _ ih =>
      refine List.forall_mem_cons.2 ⟨?_, ih⟩
      have hw := ha.1
      have hx := hb.1
      have hy := hc.1
      have hz := hd.1
      omega

/-- The units that the escapes of a string name make a text exactly if they are its codes. -/
theorem joinHalves_eq_some_iff (hbody : Escaped units body) :
    joinHalves units = some chars ↔ Codes chars units :=
  ⟨codes_of_joinHalves (units_lt hbody), joinHalves_of_codes⟩

theorem map_joinHalves {s : Option String} (hbody : Escaped units body)
    (hs : ∀ t, s = some t ↔ Codes t.toList units) :
    (joinHalves units).map String.ofList = s := by
  cases hjoined : joinHalves units with
  | none =>
      cases s with
      | none => rfl
      | some t =>
          have hcodes := joinHalves_of_codes ((hs t).1 rfl)
          rw [hjoined] at hcodes
          contradiction
  | some chars =>
      have hcodes := (joinHalves_eq_some_iff hbody).1 hjoined
      have htext := (hs (String.ofList chars)).2 (by rwa [String.toList_ofList])
      rw [htext, Option.map_some]

theorem readText_of_stringText {s : Option String} {text : List Char} (h : StringText s text) :
    ∃ body, text = '"' :: body ∧ ∀ rest, readText (body ++ rest) = some (s, rest) := by
  obtain ⟨units, body, rfl, hbody, hs⟩ := h
  refine ⟨_, rfl, fun rest => ?_⟩
  have hread : readString (body ++ '"' :: rest) = some (units, rest) := readString_append hbody
  simp [readText, hread, map_joinHalves hbody hs]

/-! ## The quoted form -/

/-- The characters that are written by the letter of a short escape. -/
def lettered : List Char := ['"', '\\', '\x08', '\x0c', '\n', '\r', '\t']

theorem escape_lettered {c : Char} (h : c ∈ lettered) :
    ∃ letter, (letter, c) ∈ shortEscapes ∧ escape c = ['\\', letter] := by
  simp only [lettered, List.mem_cons, List.not_mem_nil, or_false] at h
  rcases h with rfl | rfl | rfl | rfl | rfl | rfl | rfl
  · exact ⟨'"', by decide, rfl⟩
  · exact ⟨'\\', by decide, rfl⟩
  · exact ⟨'b', by decide, rfl⟩
  · exact ⟨'f', by decide, rfl⟩
  · exact ⟨'n', by decide, rfl⟩
  · exact ⟨'r', by decide, rfl⟩
  · exact ⟨'t', by decide, rfl⟩

theorem escaped_escape (c : Char) (hbody : Escaped units body) :
    Escaped (c.toNat :: units) (escape c ++ body) := by
  by_cases hlettered : c ∈ lettered
  · obtain ⟨letter, hletter, hescape⟩ := escape_lettered hlettered
    rw [hescape]
    exact .short hletter hbody
  · simp only [lettered, List.mem_cons, List.not_mem_nil, or_false, not_or] at hlettered
    obtain ⟨hquote, hbackslash, hb, hf, hn, hr, ht⟩ := hlettered
    unfold escape
    rw [if_neg hquote, if_neg hbackslash, if_neg hb, if_neg hf, if_neg hn, if_neg hr, if_neg ht]
    split
    · -- a control character has the code `00` and two more digits
      have hzero : HexDigit 0 '0' := ⟨by decide, .inl rfl⟩
      have hhigh : HexDigit (c.toNat / 16) (Nat.digitChar (c.toNat / 16)) := ⟨by omega, .inl rfl⟩
      have hlow : HexDigit (c.toNat % 16) (Nat.digitChar (c.toNat % 16)) := ⟨by omega, .inl rfl⟩
      exact .unit hzero hzero hhigh hlow (by omega) hbody
    · exact .plain (by omega) hquote hbackslash hbody

theorem escaped_flatMap (chars : List Char) :
    Escaped (chars.map Char.toNat) (chars.flatMap escape) := by
  induction chars with
  | nil => exact .nil
  | cons c chars ih => exact escaped_escape c ih

theorem codes_map_toNat (chars : List Char) : Codes chars (chars.map Char.toNat) := by
  induction chars with
  | nil => exact .nil
  | cons c chars ih => exact .code c ih

theorem stringText_of_codes {s : String} (hbody : Escaped units body)
    (hs : Codes s.toList units) : StringText (some s) ('"' :: (body ++ ['"'])) := by
  refine ⟨units, body, rfl, hbody, fun t => ⟨?_, fun ht => ?_⟩⟩
  · rintro ⟨⟩
    exact hs
  · have hjoined := joinHalves_of_codes ht
    rw [joinHalves_of_codes hs] at hjoined
    rw [String.toList_inj.1 (Option.some.inj hjoined)]

theorem stringText_quoted (s : String) : StringText (some s) (quoted s) :=
  stringText_of_codes (escaped_flatMap s.toList) (codes_map_toNat s.toList)

end Json

end Dataflow
