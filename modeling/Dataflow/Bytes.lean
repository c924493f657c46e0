/-!
# Byte strings

Little-endian words, UTF-8 text and hexadecimal digits as lists of bytes.
-/

namespace Dataflow

abbrev Bytes := List UInt8

namespace Bytes

/-- The low `count` bytes of `n`, least significant first. -/
def ofNat : Nat → Nat → Bytes
  | 0, _ => []
  | count + 1, n => UInt8.ofNat (n % 256) :: ofNat count (n / 256)

def toNat : Bytes → Nat
  | [] => 0
  | b :: bs => b.toNat + 256 * toNat bs

def ofText (s : String) : Bytes := s.toUTF8.data.toList

/-- The byte length as eight bytes, then the text. -/
def ofSizedText (s : String) : Bytes := ofNat 8 (ofText s).length ++ ofText s

def hexDigit (n : Nat) : Char := Nat.digitChar (n % 16)

def hex : Bytes → List Char
  | [] => []
  | b :: bs => hexDigit (b.toNat / 16) :: hexDigit b.toNat :: hex bs

def toHex (bs : Bytes) : String := String.ofList (hex bs)

/-- Replaces the bytes from `offset` on, dropping whatever would stand past the end. -/
def overwrite (bs : Bytes) (offset : Nat) (new : Bytes) : Bytes :=
  bs.take offset ++ new.take (bs.length - offset) ++ bs.drop (offset + new.length)

/-- The `count` bytes from `offset` on, if all of them are there. -/
def slice? (bs : Bytes) (offset count : Nat) : Option Bytes :=
  if offset + count ≤ bs.length then some ((bs.drop offset).take count) else none

theorem length_ofNat (count n : Nat) : (ofNat count n).length = count := by
  induction count generalizing n with
  | zero => rfl
  | succ count ih => simp [ofNat, ih]

theorem toNat_ofNat (count n : Nat) : toNat (ofNat count n) = n % Nat.pow 256 count := by
  induction count generalizing n with
  | zero => simp [ofNat, toNat, Nat.mod_one]
  | succ count ih =>
      have hbyte : (UInt8.ofNat (n % 256)).toNat = n % 256 := by simp
      have hpow : Nat.pow 256 (count + 1) = 256 * Nat.pow 256 count := Nat.mul_comm _ _
      rw [ofNat, toNat, ih, hbyte, hpow, Nat.mod_mul]

end Bytes

end Dataflow
