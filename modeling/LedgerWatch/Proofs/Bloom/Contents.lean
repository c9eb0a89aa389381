/-
  LedgerWatch.Proofs.Bloom.Contents — a filter is what was put into it.

  Written out, the bits of a filter are an array of its size (`array`): an insertion sets
  the positions of its element there, a probe reads them, clearing sets all bits back.
  After any operations the filter is a new one with the elements in it that were inserted
  since it was last cleared (`after_eq_holding`), so everything about it is a statement
  about those elements.

  - `mem_bits_holding`: a bit is set exactly when it is a position of one of them.
  - `bits_of_same_elements`: their order and their repetitions leave no trace.
  - `bitsSet_le`, `one_le_bitsSet`: how many bits are set.
  - `bits_are_union`: all of it, after any operations on a filter of any size.
-/

import LedgerWatch.Bloom.Filter
import Mathlib.Data.List.Induction

namespace LedgerWatch.BloomFilter

/-! ## The array of bits -/

/-- The bits one by one. -/
def array (f : BloomFilter) : List Bool := (List.range f.sizeBits).map f.bits.contains

@[simp] theorem length_array (f : BloomFilter) : f.array.length = f.sizeBits := by simp [array]

theorem getElem?_array (f : BloomFilter) (i : Nat) :
    f.array[i]? = if i < f.sizeBits then some (f.bits.contains i) else none := by
  by_cases h : i < f.sizeBits
  · simp [array, h]
  · simp [array, h]

/-- No bit is set outside the array. -/
def Within (f : BloomFilter) : Prop := ∀ i ∈ f.bits, i < f.sizeBits

theorem getD_array {f : BloomFilter} (h : f.Within) (i : Nat) : f.array.getD i false = f.bits.contains i := by
  rw [List.getD_eq_getElem?_getD, getElem?_array]
  by_cases hi : i < f.sizeBits
  · rw [if_pos hi]; rfl
  · rw [if_neg hi]
    cases hc : f.bits.contains i with
    | false => rfl
    | true => exact absurd (h i (Std.ExtTreeSet.contains_iff_mem.mp hc)) hi

theorem contains_eq_array {f : BloomFilter} (h : f.Within) (x : Bytes) :
    f.contains x = (f.positions x).all fun i => f.array.getD i false := by
  simp only [contains, getD_array h]

/-! ## Insertions -/

@[simp] theorem sizeBits_insert (f : BloomFilter) (e : Bytes) : (f.insert e).sizeBits = f.sizeBits := rfl

theorem getElem?_set_all (ps : List Nat) (bits : List Bool) (i : Nat) :
    (ps.foldl (fun bits i => bits.set i true) bits)[i]? = if i ∈ ps then bits[i]?.map fun _ => true else bits[i]? := by
  induction ps generalizing bits with
  | nil => simp
  | cons p ps ih =>
    rw [List.foldl_cons, ih, List.getElem?_set]
    by_cases hp : p = i
    · subst hp
      by_cases hlt : p < bits.length
      · simp [hlt]
      · simp [hlt]
    · by_cases hps : i ∈ ps <;> simp [hp, hps, Ne.symm hp]

/-- An insertion sets the positions of its element and no other bit. -/
theorem array_insert (f : BloomFilter) (e : Bytes) :
    (f.insert e).array = (f.positions e).foldl (fun bits i => bits.set i true) f.array := by
  refine List.ext_getElem? fun i => ?_
  rw [getElem?_set_all, getElem?_array, getElem?_array, sizeBits_insert]
  by_cases hlt : i < f.sizeBits
  · have hbit : (f.insert e).bits.contains i = (f.bits.contains i || decide (i ∈ f.positions e)) := by
      rw [Bool.eq_iff_iff, Bool.or_eq_true, Std.ExtTreeSet.contains_iff_mem, Std.ExtTreeSet.contains_iff_mem,
        mem_bits_insert, decide_eq_true_iff]
    rw [if_pos hlt, if_pos hlt, hbit]
    by_cases hi : i ∈ f.positions e <;> simp [hi]
  · simp [hlt]

/-! ## A filter with its elements -/

/-- A new filter with elements inserted one after the other. -/
def holding (m k : Nat) (es : List Bytes) : BloomFilter := es.foldl insert (new m k)

variable (m k : Nat)

theorem holding_snoc (es : List Bytes) (e : Bytes) : holding m k (es ++ [e]) = (holding m k es).insert e := by
  simp [holding]

@[simp] theorem sizes_holding (es : List Bytes) :
    (holding m k es).sizeBits = max m 1 ∧ (holding m k es).hashCount = max k 1 := by
  induction es using List.reverseRecOn with
  | nil => exact ⟨rfl, rfl⟩
  | append_singleton es e ih =>
    rw [holding_snoc]
    exact ih

theorem positions_holding (es : List Bytes) (x : Bytes) :
    (holding m k es).positions x = Bloom.positions x (max k 1) (max m 1) := by
  obtain ⟨hm, hk⟩ := sizes_holding m k es
  rw [positions, hm, hk]

theorem inserted_holding (es : List Bytes) : (holding m k es).inserted = es.length := by
  induction es using List.reverseRecOn with
  | nil => rfl
  | append_singleton es e ih =>
    rw [holding_snoc, List.length_append, ← ih]
    rfl

/-- The bits that are set are the positions of the elements. -/
theorem mem_bits_holding (es : List Bytes) (i : Nat) :
    i ∈ (holding m k es).bits ↔ ∃ e ∈ es, i ∈ Bloom.positions e (max k 1) (max m 1) := by
  induction es using List.reverseRecOn with
  | nil =>
    have hnone : i ∉ (holding m k []).bits := Std.ExtTreeSet.not_mem_empty
    simp [hnone]
  | append_singleton es e ih =>
    rw [holding_snoc, mem_bits_insert, ih, positions_holding]
    simp only [List.mem_append, List.mem_singleton, or_and_right, exists_or, exists_eq_left]

theorem contains_holding_iff (es : List Bytes) (x : Bytes) :
    (holding m k es).contains x = true ↔
      ∀ i ∈ Bloom.positions x (max k 1) (max m 1), ∃ e ∈ es, i ∈ Bloom.positions e (max k 1) (max m 1) := by
  simp only [contains_iff, positions_holding, mem_bits_holding]

theorem within_holding (es : List Bytes) : (holding m k es).Within := by
  intro i hi
  obtain ⟨e, -, hpos⟩ := (mem_bits_holding m k es i).mp hi
  have hlt := Bloom.lt_of_mem_positions hpos
  rw [(sizes_holding m k es).1]
  omega

theorem clear_holding (es : List Bytes) : (holding m k es).clear = new m k := by
  obtain ⟨hm, hk⟩ := sizes_holding m k es
  rw [clear, new, hm, hk]

/-- Filters that hold the same elements have the same bits. -/
theorem bits_of_same_elements {es fs : List Bytes} (h : ∀ e, e ∈ es ↔ e ∈ fs) :
    (holding m k es).bits = (holding m k fs).bits := by
  refine Std.ExtTreeSet.ext_mem fun i => ?_
  simp only [mem_bits_holding, h]

/-! ## How many bits are set -/

theorem length_positions (e : Bytes) : (Bloom.positions e k m).length = k := by simp [Bloom.positions]

theorem length_all_positions (es : List Bytes) :
    (es.flatMap fun e => Bloom.positions e k m).length = k * es.length := by
  induction es with
  | nil => simp
  | cons e es ih => rw [List.flatMap_cons, List.length_append, length_positions, ih, List.length_cons, Nat.mul_succ,
      Nat.add_comm]

theorem exists_position (e : Bytes) : ∃ i, i ∈ Bloom.positions e (max k 1) m := by
  refine List.exists_mem_of_length_pos ?_
  rw [length_positions]
  omega

/-- A new filter holds nothing, since every element has a position to ask for. -/
theorem contains_new (x : Bytes) : (new m k).contains x = false := by
  rw [Bool.eq_false_iff]
  intro h
  obtain ⟨i, hi⟩ := exists_position (max m 1) k x
  obtain ⟨e, he, -⟩ := (contains_holding_iff m k [] x).mp h i hi
  contradiction

theorem nodup_bits (f : BloomFilter) : f.bits.toList.Nodup :=
  f.bits.distinct_toList.imp fun hne heq => hne (by simp [heq])

/-- Bits that all stand in a list are at most as many as the list has entries. -/
theorem bitsSet_le_length {f : BloomFilter} {ps : List Nat} (h : ∀ i ∈ f.bits, i ∈ ps) : f.bitsSet ≤ ps.length := by
  rw [bitsSet, ← Std.ExtTreeSet.length_toList]
  exact f.nodup_bits.length_le_of_subset fun i hi => h i (Std.ExtTreeSet.mem_toList.mp hi)

theorem bitsSet_le (es : List Bytes) :
    (holding m k es).bitsSet ≤ min (max m 1) (max k 1 * es.eraseDups.length) := by
  refine Nat.le_min.mpr ⟨?_, ?_⟩
  · have hbelow : ∀ i ∈ (holding m k es).bits, i ∈ List.range (max m 1) := by
      intro i hi
      rw [List.mem_range, ← (sizes_holding m k es).1]
      exact within_holding m k es i hi
    have hle := bitsSet_le_length hbelow
    rwa [List.length_range] at hle
  · rw [← length_all_positions (max m 1)]
    refine bitsSet_le_length fun i hi => ?_
    obtain ⟨e, he, hpos⟩ := (mem_bits_holding m k es i).mp hi
    exact List.mem_flatMap.mpr ⟨e, List.mem_eraseDups.mpr he, hpos⟩

theorem one_le_bitsSet {es : List Bytes} (h : es ≠ []) : 1 ≤ (holding m k es).bitsSet := by
  obtain ⟨e, he⟩ := List.exists_mem_of_ne_nil es h
  obtain ⟨i, hi⟩ := exists_position (max m 1) k e
  have hset : i ∈ (holding m k es).bits := (mem_bits_holding m k es i).mpr ⟨e, he, hi⟩
  rw [bitsSet, ← Std.ExtTreeSet.length_toList]
  exact List.length_pos_of_mem (Std.ExtTreeSet.mem_toList.mpr hset)

theorem bitsSet_eq_count {f : BloomFilter} (h : f.Within) : f.bitsSet = f.array.count true := by
  have hperm : f.bits.toList.Perm ((List.range f.sizeBits).filter f.bits.contains) := by
    refine (List.perm_ext_iff_of_nodup f.nodup_bits (List.nodup_range.filter _)).mpr fun i => ?_
    rw [Std.ExtTreeSet.mem_toList, List.mem_filter, List.mem_range, Std.ExtTreeSet.contains_iff_mem]
    exact ⟨fun hi => ⟨h i hi, hi⟩, fun hi => hi.2⟩
  rw [bitsSet, ← Std.ExtTreeSet.length_toList, hperm.length_eq, array, List.count_eq_countP, List.countP_map,
    ← List.countP_eq_length_filter]
  exact List.countP_congr fun i _ => by simp

/-! ## What it is to hold elements -/

/-- A filter made for `m` bits and `k` hashes has the elements `es` in it, and nothing else. -/
structure Holds (es : List Bytes) (f : BloomFilter) : Prop where
  size : f.array.length = max m 1
  /-- An element stands for its positions among the bits there are. -/
  positions : ∀ x, f.positions x = Bloom.positions x (max k 1) (max m 1)
  inside : ∀ x, ∀ i ∈ f.positions x, i < f.array.length
  /-- A bit is set exactly when it is a position of one of the elements. -/
  set : ∀ i, f.array.getD i false = true ↔ ∃ e ∈ es, i ∈ f.positions e
  count : f.bitsSet = f.array.count true
  inserted : f.inserted = es.length
  /-- A probe reads its positions, an insertion sets them. -/
  reads : ∀ x, f.contains x = (f.positions x).all fun i => f.array.getD i false
  writes : ∀ x, (f.insert x).array = (f.positions x).foldl (fun bits i => bits.set i true) f.array
  covered : ∀ x, f.contains x = true ↔ ∀ i ∈ f.positions x, ∃ e ∈ es, i ∈ f.positions e
  found : ∀ e ∈ es, f.contains e = true
  empty : es = [] → ∀ x, f.contains x = false
  cleared : f.clear = new m k
  bounds : es ≠ [] → 1 ≤ f.bitsSet ∧ f.bitsSet ≤ min (max m 1) (max k 1 * es.eraseDups.length)

theorem holds_holding (es : List Bytes) : Holds m k es (holding m k es) := by
  have hsize : (holding m k es).array.length = max m 1 := by rw [length_array, (sizes_holding m k es).1]
  have hwithin := within_holding m k es
  have hpos := positions_holding m k es
  refine ⟨hsize, hpos, fun x i hi => ?_, fun i => ?_, bitsSet_eq_count hwithin, inserted_holding m k es,
    contains_eq_array hwithin, array_insert _, fun x => ?_, fun e he => ?_, fun hes x => ?_, clear_holding m k es,
    fun hes => ⟨one_le_bitsSet m k hes, bitsSet_le m k es⟩⟩
  · rw [hpos] at hi
    have hlt := Bloom.lt_of_mem_positions hi
    omega
  · simp only [getD_array hwithin, Std.ExtTreeSet.contains_iff_mem, mem_bits_holding, hpos]
  · simp only [hpos]
    exact contains_holding_iff m k es x
  · rw [contains_holding_iff]
    exact fun i hi => ⟨e, he, hi⟩
  · rw [Bool.eq_false_iff, Ne, contains_holding_iff, hes]
    obtain ⟨i, hi⟩ := exists_position (max m 1) k x
    exact fun hall => by simpa using hall i hi

/-! ## Operations in any order -/

inductive Op where
  | insert (element : Bytes)
  | probe (element : Bytes)
  | clear

def act (f : BloomFilter) : Op → BloomFilter
  | .insert e => f.insert e
  | .probe _ => f
  | .clear => f.clear

def after (f : BloomFilter) (ops : List Op) : BloomFilter := ops.foldl act f

/-- The elements inserted since the last time all was cleared, in order. -/
def elements (ops : List Op) : List Bytes :=
  ops.foldl (fun es op => match op with
    | .insert e => es ++ [e]
    | .probe _ => es
    | .clear => []) []

theorem after_append (f : BloomFilter) (ops later : List Op) : f.after (ops ++ later) = (f.after ops).after later :=
  List.foldl_append ..

/-- Whatever was done to it, a filter is a new one with the elements inserted since it was cleared. -/
theorem after_eq_holding (ops : List Op) : (new m k).after ops = holding m k (elements ops) := by
  induction ops using List.reverseRecOn with
  | nil => rfl
  | append_singleton ops op ih =>
    have hel : elements (ops ++ [op]) = match op with
        | .insert e => elements ops ++ [e]
        | .probe _ => elements ops
        | .clear => [] := by simp [elements]
    rw [after_append, ih, hel]
    cases op with
    | insert e => exact (holding_snoc m k _ e).symm
    | probe e => rfl
    | clear => exact clear_holding m k _

theorem contains_after_inserts {f : BloomFilter} {later : List Op} (h : ∀ op ∈ later, op ≠ .clear) {x : Bytes}
    (hx : f.contains x = true) : (f.after later).contains x = true := by
  induction later generalizing f with
  | nil => exact hx
  | cons op later ih =>
    have hrest : ∀ op ∈ later, op ≠ .clear := fun op' hop' => h op' (List.mem_cons_of_mem op hop')
    cases op with
    | insert e => exact ih hrest (contains_insert_of_contains hx e)
    | probe e => exact ih hrest hx
    | clear => exact absurd rfl (h .clear List.mem_cons_self)

/-- After any operations a filter holds the elements inserted since it was last cleared: its bits are the union of
their positions. Insertions turn no probe negative, and only which elements there are makes a difference. -/
theorem bits_are_union (ops : List Op) :
    let f := (new m k).after ops
    Holds m k (elements ops) f ∧
      (∀ later, (∀ op ∈ later, op ≠ Op.clear) → ∀ x, f.contains x = true → (f.after later).contains x = true) ∧
      ∀ ops', (∀ e, e ∈ elements ops' ↔ e ∈ elements ops) →
        ((new m k).after ops').array = f.array ∧ ∀ x, ((new m k).after ops').contains x = f.contains x := by
  intro f
  have hf : f = holding m k (elements ops) := after_eq_holding m k ops
  refine ⟨hf ▸ holds_holding m k _, fun later h x => contains_after_inserts h, fun ops' h => ?_⟩
  have hbits := bits_of_same_elements m k h
  rw [hf, after_eq_holding]
  refine ⟨?_, fun x => ?_⟩
  · rw [array, array, hbits, (sizes_holding m k _).1, (sizes_holding m k _).1]
  · rw [contains, contains, hbits, positions_holding, positions_holding]

/-- Something is inserted and cleared, then one element twice and another one between. -/
def twiceInserted : List Op := [.insert [1], .clear, .insert [2, 3], .insert [4], .probe [1], .insert [2, 3]]

/-- Two elements of three positions each have one in common, so five bits are set. What was cleared is gone. -/
theorem bits_are_union_of_twice :
    let f := (new 64 3).after twiceInserted
    Holds 64 3 (elements twiceInserted) f ∧ elements twiceInserted = [[2, 3], [4], [2, 3]] ∧
      f.positions [2, 3] = [51, 60, 5] ∧ f.positions [4] = [45, 25, 5] ∧ f.bitsSet = 5 ∧
      f.contains [2, 3] = true ∧ f.contains [1] = false ∧
      (f.after [.insert [5]]).contains [2, 3] = true ∧
      ((new 64 3).after [.insert [4], .insert [2, 3]]).array = f.array := by
  intro f
  obtain ⟨hholds, hlater, hsame⟩ := bits_are_union 64 3 twiceInserted
  have hin : f.contains [2, 3] = true := hholds.found [2, 3] (by decide)
  have hmembers : ∀ e, e ∈ elements [.insert [4], .insert [2, 3]] ↔ e ∈ elements twiceInserted := by
    intro e
    simp [elements, twiceInserted, or_comm]
  refine ⟨hholds, rfl, ?_, ?_, ?_, hin, ?_, hlater [.insert [5]] (by simp) [2, 3] hin,
    (hsame [.insert [4], .insert [2, 3]] hmembers).1⟩
  all_goals decide +kernel

end LedgerWatch.BloomFilter
