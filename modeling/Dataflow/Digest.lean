import Dataflow.Bytes

/-!
# BLAKE3 digests

The unkeyed 32-byte hash of a byte string. The input is cut into chunks of 1024
bytes and each chunk into blocks of 64; chunk results are joined pairwise by a
binary tree whose left part is the largest power of two of chunks that leaves
something on the right.
-/

namespace Dataflow.Digest

abbrev Words (n : Nat) := Vector UInt32 n

def initialWords : Words 8 :=
  #v[0x6a09e667, 0xbb67ae85, 0x3c6ef372, 0xa54ff53a,
     0x510e527f, 0x9b05688c, 0x1f83d9ab, 0x5be0cd19]

def permutation : Vector (Fin 16) 16 := #v[2, 6, 3, 10, 7, 0, 4, 13, 1, 11, 12, 5, 9, 14, 15, 8]

def chunkStart : UInt32 := 1

def chunkEnd : UInt32 := 2

def parentFlag : UInt32 := 4

def rootFlag : UInt32 := 8

def chunkSize : Nat := 1024

def blockSize : Nat := 64

def rotateRight (x : UInt32) (n : UInt32) : UInt32 := (x >>> n) ||| (x <<< (32 - n))

def mix (v : Words 16) (a b c d : Fin 16) (x y : UInt32) : Words 16 :=
  let va := v[a] + v[b] + x
  let vd := rotateRight (v[d] ^^^ va) 16
  let vc := v[c] + vd
  let vb := rotateRight (v[b] ^^^ vc) 12
  let va := va + vb + y
  let vd := rotateRight (vd ^^^ va) 8
  let vc := vc + vd
  let vb := rotateRight (vb ^^^ vc) 7
  (((v.set a.val va a.isLt).set b.val vb b.isLt).set c.val vc c.isLt).set d.val vd d.isLt

def roundStep (v m : Words 16) : Words 16 :=
  let v := mix v 0 4 8 12 m[0] m[1]
  let v := mix v 1 5 9 13 m[2] m[3]
  let v := mix v 2 6 10 14 m[4] m[5]
  let v := mix v 3 7 11 15 m[6] m[7]
  let v := mix v 0 5 10 15 m[8] m[9]
  let v := mix v 1 6 11 12 m[10] m[11]
  let v := mix v 2 7 8 13 m[12] m[13]
  mix v 3 4 9 14 m[14] m[15]

def permute (m : Words 16) : Words 16 := permutation.map fun i => m[i]

def rounds : Nat → Words 16 → Words 16 → Words 16
  | 0, v, _ => v
  | n + 1, v, m => rounds n (roundStep v m) (permute m)

/-- One application of the compression function, not yet carried out. -/
structure Compression where
  chaining : Words 8
  block : Words 16
  counter : Nat
  length : Nat
  flags : UInt32

def Compression.run (n : Compression) (extraFlags : UInt32) : Words 8 :=
  let h := n.chaining
  let i := initialWords
  let start : Words 16 :=
    #v[h[0], h[1], h[2], h[3], h[4], h[5], h[6], h[7], i[0], i[1], i[2], i[3],
       UInt32.ofNat n.counter, UInt32.ofNat (n.counter / 0x100000000),
       UInt32.ofNat n.length, n.flags ||| extraFlags]
  let v := rounds 7 start n.block
  Vector.ofFn fun (k : Fin 8) => v[k.val] ^^^ v[k.val + 8]

def wordAt (bs : Bytes) (k : Nat) : UInt32 := UInt32.ofNat (Bytes.toNat ((bs.drop (4 * k)).take 4))

def blockWords (bs : Bytes) : Words 16 := Vector.ofFn fun (k : Fin 16) => wordAt bs k.val

/-- The last compression of a chunk whose earlier blocks gave `chaining`. -/
def chunkRoot (chaining : Words 8) (counter : Nat) (flags : UInt32) (bs : Bytes) : Compression :=
  if _h : bs.length ≤ blockSize then
    ⟨chaining, blockWords bs, counter, bs.length, flags ||| chunkEnd⟩
  else
    let block : Compression :=
      ⟨chaining, blockWords (bs.take blockSize), counter, blockSize, flags⟩
    chunkRoot (block.run 0) counter 0 (bs.drop blockSize)
termination_by bs.length
decreasing_by simp only [List.length_drop, blockSize] at *; omega

/-- How many bytes the left part of a tree over `n` bytes holds. -/
def leftSize (n : Nat) : Nat := chunkSize * Nat.pow 2 ((n - 1) / chunkSize).log2

theorem leftSize_pos (n : Nat) : 0 < leftSize n :=
  Nat.mul_pos (by decide) (Nat.two_pow_pos _)

theorem leftSize_lt {n : Nat} (h : chunkSize < n) : leftSize n < n := by
  have hne : (n - 1) / chunkSize ≠ 0 := by
    simp only [chunkSize] at *
    omega
  have hpow : Nat.pow 2 ((n - 1) / chunkSize).log2 ≤ (n - 1) / chunkSize :=
    Nat.log2_self_le hne
  have hle : leftSize n ≤ chunkSize * ((n - 1) / chunkSize) := Nat.mul_le_mul_left _ hpow
  have := Nat.mul_div_le (n - 1) chunkSize
  simp only [chunkSize] at *
  omega

def parentRoot (left right : Words 8) : Compression :=
  ⟨initialWords, left ++ right, 0, blockSize, parentFlag⟩

def treeRoot (counter : Nat) (bs : Bytes) : Compression :=
  if _h : bs.length ≤ chunkSize then chunkRoot initialWords counter chunkStart bs
  else
    let left := leftSize bs.length
    parentRoot ((treeRoot counter (bs.take left)).run 0)
      ((treeRoot (counter + left / chunkSize) (bs.drop left)).run 0)
termination_by bs.length
decreasing_by
  · have := leftSize_lt (Nat.lt_of_not_le _h)
    simp only [List.length_take]
    omega
  · have := leftSize_pos bs.length
    simp only [List.length_drop, chunkSize] at *
    omega

/-- The BLAKE3 digest of a byte string. -/
def hash (bs : Bytes) : Vector UInt8 32 :=
  let words := (treeRoot 0 bs).run rootFlag
  Vector.ofFn fun (k : Fin 32) =>
    UInt8.ofNat ((words.getD (k.val / 4) 0).toNat / Nat.pow 256 (k.val % 4))

end Dataflow.Digest
