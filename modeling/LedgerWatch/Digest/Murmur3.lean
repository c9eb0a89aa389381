/-
  LedgerWatch.Digest.Murmur3 — the x64 MurmurHash3 of 128 bits.

  The two halves run over the input in blocks of sixteen bytes, two little-endian words
  each; what is left over is taken as a block filled up with zeros, without the
  reshuffle that follows a full one. `hash` is the first half.
-/

import LedgerWatch.Bytes

namespace LedgerWatch.Digest.Murmur3

structure Halves where
  first : UInt64
  second : UInt64

def rotateLeft (x n : UInt64) : UInt64 := (x <<< n) ||| (x >>> (64 - n))

def c1 : UInt64 := 0x87c37b91114253d5

def c2 : UInt64 := 0x4cf5ad432745937f

def mixFirst (k : UInt64) : UInt64 := rotateLeft (k * c1) 31 * c2

def mixSecond (k : UInt64) : UInt64 := rotateLeft (k * c2) 33 * c1

/-- The words of a block; bytes that are missing count as zero. -/
def words (block : Bytes) : UInt64 × UInt64 :=
  (UInt64.ofNat (Bytes.ofLittle (block.take 8)), UInt64.ofNat (Bytes.ofLittle (block.drop 8)))

def full (h : Halves) (block : Bytes) : Halves :=
  let (k1, k2) := words block
  let first := (rotateLeft (h.first ^^^ mixFirst k1) 27 + h.second) * 5 + 0x52dce729
  ⟨first, (rotateLeft (h.second ^^^ mixSecond k2) 31 + first) * 5 + 0x38495ab5⟩

def leftover (h : Halves) (block : Bytes) : Halves :=
  let (k1, k2) := words block
  ⟨h.first ^^^ mixFirst k1, h.second ^^^ mixSecond k2⟩

def avalanche (k : UInt64) : UInt64 :=
  let k := (k ^^^ (k >>> 33)) * 0xff51afd7ed558ccd
  let k := (k ^^^ (k >>> 33)) * 0xc4ceb9fe1a85ec53
  k ^^^ (k >>> 33)

/-- The halves over the first `n` full blocks, then over what is left. -/
def absorb : Nat → Halves → Bytes → Halves
  | 0, h, bs => leftover h bs
  | n + 1, h, bs => absorb n (full h (bs.take 16)) (bs.drop 16)

def finish (h : Halves) (length : UInt64) : Halves :=
  let a := h.first ^^^ length
  let b := h.second ^^^ length
  let a := a + b
  let b := b + a
  let a := avalanche a
  let b := avalanche b
  ⟨a + b, b + (a + b)⟩

def hash (bs : Bytes) (seed : UInt32) : UInt64 :=
  (finish (absorb (bs.length / 16) ⟨seed.toUInt64, seed.toUInt64⟩ bs) bs.length.toUInt64).first

end LedgerWatch.Digest.Murmur3
