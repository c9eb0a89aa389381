/-
  LedgerWatch.Bloom.Filter — a set of byte strings that may answer yes too often and
  never no too often.

  An element stands for `k` positions among `m` bits, taken from two of its hashes by
  double hashing. Inserting sets its positions; a probe is positive when all of them are
  set. Only the positions that are set are kept, so a filter costs what is in it and not
  what it has room for.

  - `lt_of_mem_positions`: a position is below `m`.
  - `mem_bits_insert`: an insertion sets the positions of its element and clears none.
  - `contains_iff`: a probe is positive iff all positions are set.
  - `contains_insert_self`, `contains_insert_of_contains`: what is in stays in.
-/

import LedgerWatch.Bloom.Sizing
import LedgerWatch.Digest.Murmur3
import Std.Data.ExtTreeSet

namespace LedgerWatch.Bloom

/-- The `k` positions of an element among `m` bits. -/
def positions (element : Bytes) (k m : Nat) : List Nat :=
  let first := Digest.Murmur3.hash element 0
  let second := Digest.Murmur3.hash element 1
  (List.range k).map fun i => ((first + i.toUInt64 * second) % (max m 1).toUInt64).toNat

theorem toNat_mod_lt (x : UInt64) {m : Nat} (hm : 0 < m) : (x % m.toUInt64).toNat < m := by
  rw [UInt64.toNat_mod, Nat.toUInt64, UInt64.toNat_ofNat']
  have hx := x.toNat_lt
  by_cases h : m % UInt64.size = 0
  · simp only [UInt64.size] at h
    rw [h, Nat.mod_zero]
    omega
  · exact Nat.lt_of_lt_of_le (Nat.mod_lt _ (Nat.pos_of_ne_zero h)) (Nat.mod_le _ _)

theorem lt_of_mem_positions {element : Bytes} {k m i : Nat} (h : i ∈ positions element k m) : i < max m 1 := by
  obtain ⟨_, _, rfl⟩ := List.mem_map.mp h
  exact toNat_mod_lt _ (by omega)

end LedgerWatch.Bloom

namespace LedgerWatch

structure BloomFilter where
  sizeBits : Nat
  hashCount : Nat
  /-- The positions that are set. -/
  bits : Std.ExtTreeSet Nat
  /-- Insertions since the filter was empty, repeated ones too. -/
  inserted : Nat

namespace BloomFilter

/-- At least one bit and one hash. -/
def new (m k : Nat) : BloomFilter := ⟨max m 1, max k 1, ∅, 0⟩

def ofSizing (s : Bloom.Sizing) : BloomFilter := new s.sizeBits s.hashCount

def positions (f : BloomFilter) (element : Bytes) : List Nat := Bloom.positions element f.hashCount f.sizeBits

def insert (f : BloomFilter) (element : Bytes) : BloomFilter :=
  { f with
    bits := (f.positions element).foldl Std.ExtTreeSet.insert f.bits
    inserted := f.inserted + 1 }

def contains (f : BloomFilter) (element : Bytes) : Bool := (f.positions element).all f.bits.contains

def isEmpty (f : BloomFilter) : Bool := f.inserted = 0

def bitsSet (f : BloomFilter) : Nat := f.bits.size

def clear (f : BloomFilter) : BloomFilter := { f with bits := ∅, inserted := 0 }

/-- The rate of false positives now. -/
def rate (f : BloomFilter) : Float := Bloom.falsePositiveRate f.sizeBits f.inserted f.hashCount

theorem mem_foldl_insert (ps : List Nat) (bits : Std.ExtTreeSet Nat) (i : Nat) :
    i ∈ ps.foldl Std.ExtTreeSet.insert bits ↔ i ∈ bits ∨ i ∈ ps := by
  induction ps generalizing bits with
  | nil => simp
  | cons p ps ih =>
    simp only [List.foldl_cons, ih, Std.ExtTreeSet.mem_insert, Std.LawfulEqCmp.compare_eq_iff_eq, List.mem_cons]
    rw [eq_comm, or_assoc, or_left_comm]

theorem mem_bits_insert (f : BloomFilter) (element : Bytes) (i : Nat) :
    i ∈ (f.insert element).bits ↔ i ∈ f.bits ∨ i ∈ f.positions element :=
  mem_foldl_insert ..

theorem contains_iff (f : BloomFilter) (element : Bytes) :
    f.contains element ↔ ∀ i ∈ f.positions element, i ∈ f.bits := by
  simp [contains]

theorem contains_insert_self (f : BloomFilter) (element : Bytes) : (f.insert element).contains element = true :=
  (contains_iff ..).mpr fun i hi => (mem_bits_insert f element i).mpr (.inr hi)

theorem contains_insert_of_contains {f : BloomFilter} {element : Bytes} (h : f.contains element = true)
    (other : Bytes) : (f.insert other).contains element = true :=
  (contains_iff ..).mpr fun i hi => (mem_bits_insert f other i).mpr (.inl ((contains_iff ..).mp h i hi))

end BloomFilter

end LedgerWatch
