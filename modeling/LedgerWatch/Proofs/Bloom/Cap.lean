/-
  LedgerWatch.Proofs.Bloom.Cap — a filter keeps to its cap, whatever the sums come to.

  How many bits a filter has and how many hashes is computed in binary64 and cast to whole
  numbers. An `Arithmetic` is any answers at all to these operations and to the cast, the
  actual ones are `Arithmetic.binary64`. The bounds are made of whole numbers behind the
  cast, so they hold under every one of them: a cast can be 0, or as large as it gets.

  - `capped_bounds`: bits within the cap, or one if there is none, and 1 to 32 hashes.
  - `keepsTo_filter`: a filter has at least one bit as well.
  - `KeepsTo.insert`: and it stays as large as it was made.
-/

import LedgerWatch.Proofs.Bloom.Contents
import LedgerWatch.Settings

namespace LedgerWatch

/-- What operations on binary64 numbers come to, and what numbers are cast to. -/
structure Arithmetic where
  ofNat : Nat → Float
  neg : Float → Float
  sub : Float → Float → Float
  mul : Float → Float → Float
  div : Float → Float → Float
  log : Float → Float
  exp : Float → Float
  pow : Float → Int → Float
  ceil : Float → Float
  round : Float → Float
  cast : Float → UInt64

namespace Arithmetic

open Bloom (ln2 Sizing)

variable (ar : Arithmetic)

/-! ## Sizes -/

def falsePositiveRate (m n k : Nat) : Float :=
  if m = 0 then 1
  else
    let exponent := ar.div (ar.mul (ar.neg (ar.ofNat k)) (ar.ofNat n)) (ar.ofNat m)
    ar.pow (ar.sub 1 (ar.exp exponent)) k.toUInt64.toUInt32.toInt32.toInt

def hashCount (m n : Nat) : Nat :=
  if n = 0 then 1
  else max 1 (min 32 (ar.cast (ar.round (ar.mul (ar.div (ar.ofNat m) (ar.ofNat n)) ln2))).toNat)

def bitsFor (n : Nat) (rate : Float) : Nat :=
  (ar.cast (ar.ceil (ar.div (ar.mul (ar.neg (ar.ofNat n)) (ar.log rate)) (ar.mul ln2 ln2)))).toNat

def sized (m n : Nat) : Sizing := ⟨m, ar.hashCount m n, ar.falsePositiveRate m n (ar.hashCount m n)⟩

def optimal (n : Nat) (rate : Float) : Sizing := if n = 0 then ⟨1, 1, 1⟩ else ar.sized (ar.bitsFor n rate) n

def capped (n : Nat) (rate : Float) (maxBits : Nat) : Sizing :=
  let s := ar.optimal n rate
  if s.sizeBits ≤ maxBits then s else ar.sized (max maxBits 1) n

def filter (s : FilterSettings) : BloomFilter := .ofSizing (ar.capped s.elements s.rate s.maxBits)

/-- The operations as they are. -/
def binary64 : Arithmetic :=
  ⟨Bloom.real, (-·), (· - ·), (· * ·), (· / ·), Float.log, Float.exp, Bloom.pow, Float.ceil, Float.round, Float.toUInt64⟩

theorem capped_binary64 : binary64.capped = Bloom.capped := rfl

theorem filter_binary64 : binary64.filter = BloomFilter.ofSettings := rfl

theorem hashCount_bounds (m n : Nat) : 1 ≤ ar.hashCount m n ∧ ar.hashCount m n ≤ 32 := by
  unfold hashCount
  split
  · omega
  · omega

theorem optimal_hashCount_bounds (n : Nat) (rate : Float) :
    1 ≤ (ar.optimal n rate).hashCount ∧ (ar.optimal n rate).hashCount ≤ 32 := by
  unfold optimal
  split
  · exact ⟨Nat.le_refl 1, by decide⟩
  · exact ar.hashCount_bounds _ _

theorem capped_bounds (n : Nat) (rate : Float) (maxBits : Nat) :
    let z := ar.capped n rate maxBits
    z.sizeBits ≤ max maxBits 1 ∧ 1 ≤ z.hashCount ∧ z.hashCount ≤ 32 := by
  unfold capped
  simp only
  split
  · rename_i hfits
    exact ⟨Nat.le_trans hfits (Nat.le_max_left _ _), ar.optimal_hashCount_bounds n rate⟩
  · exact ⟨Nat.le_refl _, ar.hashCount_bounds _ _⟩

end Arithmetic

/-! ## Filters -/

namespace BloomFilter

/-- A filter has one bit at least and no more than its cap, and 1 to 32 hashes; no bit is set beyond the last. -/
structure KeepsTo (maxBits : Nat) (f : BloomFilter) : Prop where
  one_le_sizeBits : 1 ≤ f.sizeBits
  sizeBits_le : f.sizeBits ≤ maxBits
  one_le_hashCount : 1 ≤ f.hashCount
  hashCount_le : f.hashCount ≤ 32
  within : f.Within

theorem keepsTo_filter (ar : Arithmetic) (s : FilterSettings) : (ar.filter s).KeepsTo (max s.maxBits 1) := by
  obtain ⟨hsize, hone, hcount⟩ := ar.capped_bounds s.elements s.rate s.maxBits
  refine ⟨Nat.le_max_right _ _, Nat.max_le.mpr ⟨hsize, Nat.le_max_right _ _⟩, Nat.le_max_right _ _,
    Nat.max_le.mpr ⟨hcount, by decide⟩, within_holding _ _ []⟩

theorem KeepsTo.insert {maxBits : Nat} {f : BloomFilter} (h : f.KeepsTo maxBits) (e : Bytes) :
    (f.insert e).KeepsTo maxBits := by
  refine ⟨h.one_le_sizeBits, h.sizeBits_le, h.one_le_hashCount, h.hashCount_le, fun i hi => ?_⟩
  rcases (mem_bits_insert f e i).mp hi with hi | hi
  · exact h.within i hi
  · have hlt := Bloom.lt_of_mem_positions hi
    rwa [Nat.max_eq_left h.one_le_sizeBits] at hlt

end BloomFilter

end LedgerWatch
