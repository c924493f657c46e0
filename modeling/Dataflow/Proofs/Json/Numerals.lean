import Dataflow.Json.Number
import Dataflow.Json.Parse
import Mathlib.Data.List.TakeDrop

/-!
# Texts of numerals

`Numeral.Written` lists the texts of a numeral: no zero stands before other digits, a point is
followed by digits, and a power of ten has either letter and may leave out a plus sign. The reader
takes each of them off the front of a text whole, as long as nothing follows that would go on with
the number. The numeral of an integer is written so, and means that integer.
-/

namespace Dataflow

namespace Numeral

/-- One digit at least, and nothing else. -/
def Digits (cs : List Char) : Prop := cs ≠ [] ∧ ∀ c ∈ cs, c.isDigit

/-- The digits before the point. -/
def Whole (cs : List Char) : Prop := Digits cs ∧ (cs.head? = some '0' → cs.length = 1)

/-- The texts of the digits after the point. -/
inductive FractionText : List Char → List Char → Prop
  | absent : FractionText [] []
  | present {digits : List Char} (hdigits : Digits digits) : FractionText digits ('.' :: digits)

/-- The texts of a power of ten. -/
inductive ExponentText : Option (Bool × List Char) → List Char → Prop
  | absent : ExponentText none []
  | unsigned {letter : Char} {digits : List Char} (hletter : letter = 'e' ∨ letter = 'E')
      (hdigits : Digits digits) : ExponentText (some (false, digits)) (letter :: digits)
  | signed {letter : Char} {digits : List Char} (negative : Bool)
      (hletter : letter = 'e' ∨ letter = 'E') (hdigits : Digits digits) :
      ExponentText (some (negative, digits))
        (letter :: (if negative then '-' else '+') :: digits)

def signText (negative : Bool) : List Char := if negative then ['-'] else []

/-- The texts of a numeral. -/
inductive Written : Numeral → List Char → Prop
  | intro {whole fraction fractionText exponentText : List Char}
      {exponent : Option (Bool × List Char)} (negative : Bool) (hwhole : Whole whole)
      (hfraction : FractionText fraction fractionText)
      (hexponent : ExponentText exponent exponentText) :
      Written ⟨negative, whole, fraction, exponent⟩
        (signText negative ++ (whole ++ (fractionText ++ exponentText)))

end Numeral

namespace Json

open Numeral

/-- Nothing that would go on with a number. -/
def LeavesNumber (rest : List Char) : Prop :=
  ∀ c ∈ rest.head?, c.isDigit = false ∧ c ≠ '.' ∧ c ≠ 'e' ∧ c ≠ 'E'

variable {digits whole fraction text rest : List Char}

/-! ## Digits -/

theorem readDigits_append (hdigits : Digits digits)
    (hrest : ∀ c ∈ rest.head?, c.isDigit = false) :
    readDigits (digits ++ rest) = some (digits, rest) := by
  have htake : rest.takeWhile Char.isDigit = [] := by
    cases rest with
    | nil => rfl
    | cons c rest => simp [hrest c rfl]
  have hdrop : rest.dropWhile Char.isDigit = rest := by
    cases rest with
    | nil => rfl
    | cons c rest => simp [hrest c rfl]
  have hspan : (digits ++ rest).span Char.isDigit = (digits, rest) := by
    rw [List.span_eq_takeWhile_dropWhile, List.takeWhile_append_of_pos hdigits.2,
      List.dropWhile_append_of_pos hdigits.2, htake, hdrop, List.append_nil]
  unfold readDigits
  rw [hspan]
  cases digits with
  | nil => exact absurd rfl hdigits.1
  | cons c digits => rfl

theorem ne_sign_of_isDigit {c : Char} (h : c.isDigit) : c ≠ '+' ∧ c ≠ '-' := by
  constructor <;> rintro rfl <;> contradiction

theorem readWhole_append (hwhole : Whole whole) (hrest : ∀ c ∈ rest.head?, c.isDigit = false) :
    readWhole (whole ++ rest) = some (whole, rest) := by
  unfold readWhole
  rw [readDigits_append hwhole.1 hrest]
  have hzero : ¬(whole.head? = some '0' ∧ whole.length ≠ 1) := fun h => h.2 (hwhole.2 h.1)
  simp [hzero]

/-! ## Parts of a numeral -/

theorem readFraction_append (h : FractionText fraction text)
    (hrest : ∀ c ∈ rest.head?, c.isDigit = false ∧ c ≠ '.') :
    readFraction (text ++ rest) = some (fraction, rest) := by
  cases h with
  | absent =>
      cases rest with
      | nil => rfl
      | cons c rest =>
          have hpoint := (hrest c rfl).2
          simp [readFraction, hpoint]
  | present hdigits => exact readDigits_append hdigits fun c hc => (hrest c hc).1

theorem readExponent_append {exponent : Option (Bool × List Char)}
    (h : ExponentText exponent text) (hrest : LeavesNumber rest) :
    readExponent (text ++ rest) = some (exponent, rest) := by
  have hstop : ∀ c ∈ rest.head?, c.isDigit = false := fun c hc => (hrest c hc).1
  cases h with
  | absent =>
      cases rest with
      | nil => rfl
      | cons c rest =>
          obtain ⟨-, -, he, hE⟩ := hrest c rfl
          simp [readExponent, he, hE]
  | @unsigned letter digits hletter hdigits =>
      -- a digit stands where a sign could stand
      obtain ⟨d, ds, rfl⟩ := List.exists_cons_of_ne_nil hdigits.1
      obtain ⟨hplus, hminus⟩ := ne_sign_of_isDigit (hdigits.2 d List.mem_cons_self)
      have hread := readDigits_append hdigits hstop
      rw [List.cons_append] at hread
      simp [readExponent, hletter, hplus, hminus, hread]
  | @signed letter digits negative hletter hdigits =>
      cases negative <;> simp [readExponent, hletter, readDigits_append hdigits hstop]

/-- What follows the digits after the point does not go on with them. -/
theorem head?_exponentText {exponent : Option (Bool × List Char)}
    (h : ExponentText exponent text) (hrest : LeavesNumber rest) :
    ∀ c ∈ (text ++ rest).head?, c.isDigit = false ∧ c ≠ '.' := by
  cases h with
  | absent => exact fun c hc => ⟨(hrest c hc).1, (hrest c hc).2.1⟩
  | unsigned hletter => rintro c ⟨⟩; rcases hletter with rfl | rfl <;> decide
  | signed negative hletter => rintro c ⟨⟩; rcases hletter with rfl | rfl <;> decide

/-- What follows the digits before the point does not go on with them. -/
theorem head?_fractionText (h : FractionText fraction text)
    (hrest : ∀ c ∈ rest.head?, c.isDigit = false) :
    ∀ c ∈ (text ++ rest).head?, c.isDigit = false := by
  cases h with
  | absent => exact hrest
  | present => rintro c ⟨⟩; rfl

theorem readNumeral_append {n : Numeral} (h : n.Written text) (hrest : LeavesNumber rest) :
    readNumeral (text ++ rest) = some (n, rest) := by
  obtain ⟨negative, hwhole, hfraction, hexponent⟩ := h
  rename_i whole fraction fractionText exponentText exponent
  have hafterFraction := head?_exponentText hexponent hrest
  have hafterWhole := head?_fractionText hfraction fun c hc => (hafterFraction c hc).1
  have hreadWhole := readWhole_append hwhole hafterWhole
  have hreadFraction := readFraction_append hfraction hafterFraction
  have hreadExponent := readExponent_append hexponent hrest
  simp only [List.append_assoc]
  cases negative with
  | true => simp [readNumeral, signText, hreadWhole, hreadFraction, hreadExponent]
  | false =>
      obtain ⟨d, ds, rfl⟩ := List.exists_cons_of_ne_nil hwhole.1.1
      have hminus := (ne_sign_of_isDigit (hwhole.1.2 d List.mem_cons_self)).2
      rw [List.cons_append] at hreadWhole
      simp [readNumeral, signText, hminus, hreadWhole, hreadFraction, hreadExponent]

end Json

/-! ## Integers -/

namespace Numeral

theorem digitsValue_toDigits (n : Nat) : digitsValue (Nat.toDigits 10 n) = n :=
  Nat.ofDigitChars_ten_toDigits

theorem digits_toDigits (n : Nat) : Digits (Nat.toDigits 10 n) := by
  refine ⟨List.ne_nil_of_length_pos Nat.length_toDigits_pos, fun c hc => ?_⟩
  exact Nat.isDigit_of_mem_toDigits (by decide) (Nat.le_refl 10) hc

theorem head?_toDigits {n : Nat} (hn : 0 < n) : (Nat.toDigits 10 n).head? ≠ some '0' := by
  induction n using Nat.strongRecOn with
  | ind n ih =>
    rcases Nat.lt_or_ge n 10 with hsmall | hlarge
    · rw [Nat.toDigits_of_lt_base hsmall]
      have hdigit : ∀ d < 10, 0 < d → Nat.digitChar d ≠ '0' := by decide
      simpa using hdigit n hsmall hn
    · have hquotient := ih (n / 10) (by omega) (by omega)
      obtain ⟨d, ds, hcons⟩ := List.exists_cons_of_ne_nil (digits_toDigits (n / 10)).1
      rw [Nat.toDigits_of_base_le (by decide) hlarge, hcons]
      rwa [hcons] at hquotient

theorem whole_toDigits (n : Nat) : Whole (Nat.toDigits 10 n) := by
  refine ⟨digits_toDigits n, fun hzero => ?_⟩
  rcases Nat.eq_zero_or_pos n with rfl | hn
  · rfl
  · exact absurd hzero (head?_toDigits hn)

theorem written_ofInt (i : Int) : (ofInt i).Written (ofInt i).chars := by
  have h := Written.intro (i < 0) (whole_toDigits i.natAbs) .absent .absent
  simpa [ofInt, chars, signText] using h

theorem toInt?_ofInt (i : Int) : (ofInt i).toInt? = some i := by
  have hmagnitude : digitsValue (ofInt i).whole = i.natAbs := digitsValue_toDigits _
  have hinteger : (ofInt i).isInteger := rfl
  simp only [toInt?, hmagnitude, hinteger, Bool.not_true, Bool.false_eq_true, if_false]
  by_cases hi : i < 0
  · have hnegative : (ofInt i).negative := decide_eq_true hi
    have hne : i.natAbs ≠ 0 := by omega
    have habs : -(i.natAbs : Int) = i := by omega
    rw [if_pos hnegative, if_neg hne, habs]
  · have hnegative : ¬(ofInt i).negative := by simp [ofInt, hi]
    have habs : (i.natAbs : Int) = i := by omega
    rw [if_neg hnegative, habs]

end Numeral

end Dataflow
