/-
  LedgerWatch.SortedMap — finite maps in key order.

  Keys are ordered by an injective rank into the naturals. A map is its list of entries
  in strictly increasing order, so two maps that look up alike are equal and the order
  in which a map is walked is not a choice. A `SortedSet` is a map to `Unit`.

  - `get?_insert`, `get?_erase`: what an update does to every look-up.
  - `mem_entries_iff`: an entry is listed exactly when its key looks it up.
  - `eq_of_get?_eq`: maps that look up alike are equal.
  - `any_contains_comm`: whether two maps share a key is told by walking either.
  - `filterMap_get?`: what two maps have in common can be walked by either.
-/

namespace LedgerWatch

class Ranked (κ : Type) where
  rank : κ → Nat
  rank_inj : ∀ {a b : κ}, rank a = rank b → a = b

export Ranked (rank)

instance : Ranked Nat := ⟨id, id⟩

/-- `a` before `b`. -/
def Before {κ υ : Type} [Ranked κ] (a b : κ × υ) : Prop := rank a.1 < rank b.1

structure SortedMap (κ υ : Type) [Ranked κ] where
  entries : List (κ × υ)
  sorted : entries.Pairwise Before

abbrev SortedSet (κ : Type) [Ranked κ] := SortedMap κ Unit

namespace SortedMap

variable {κ υ : Type} [Ranked κ]

def empty : SortedMap κ υ := ⟨[], .nil⟩

instance : Inhabited (SortedMap κ υ) := ⟨empty⟩

def lookup (k : κ) : List (κ × υ) → Option υ
  | [] => none
  | (k', v) :: es => if rank k' = rank k then some v else lookup k es

def get? (m : SortedMap κ υ) (k : κ) : Option υ := lookup k m.entries

def contains (m : SortedMap κ υ) (k : κ) : Bool := (m.get? k).isSome

def size (m : SortedMap κ υ) : Nat := m.entries.length

def isEmpty (m : SortedMap κ υ) : Bool := m.entries.isEmpty

def keys (m : SortedMap κ υ) : List κ := m.entries.map (·.1)

def values (m : SortedMap κ υ) : List υ := m.entries.map (·.2)

/-- The entries with `k` put in its place, over an entry it may have. -/
def place (k : κ) (v : υ) : List (κ × υ) → List (κ × υ)
  | [] => [(k, v)]
  | (k', v') :: es =>
    if rank k < rank k' then (k, v) :: (k', v') :: es
    else if rank k = rank k' then (k, v) :: es
    else (k', v') :: place k v es

theorem mem_place {k : κ} {v : υ} {es : List (κ × υ)} {e : κ × υ} (h : e ∈ place k v es) :
    e = (k, v) ∨ e ∈ es := by
  induction es with
  | nil => simpa [place] using h
  | cons e' es ih =>
    obtain ⟨k', v'⟩ := e'
    unfold place at h
    split at h
    · simpa using h
    · split at h
      · rcases List.mem_cons.mp h with h | h
        · exact .inl h
        · exact .inr (List.mem_cons_of_mem _ h)
      · rcases List.mem_cons.mp h with h | h
        · exact .inr (h ▸ List.mem_cons_self)
        · exact (ih h).imp_right (List.mem_cons_of_mem _)

theorem sorted_place (k : κ) (v : υ) {es : List (κ × υ)} (h : es.Pairwise Before) :
    (place k v es).Pairwise Before := by
  induction es with
  | nil => simp [place]
  | cons e es ih =>
    obtain ⟨k', v'⟩ := e
    obtain ⟨h1, h2⟩ := List.pairwise_cons.mp h
    unfold place
    split
    · rename_i hlt
      refine List.pairwise_cons.mpr ⟨fun e he => ?_, h⟩
      rcases List.mem_cons.mp he with rfl | he
      · exact hlt
      · exact Nat.lt_trans hlt (h1 e he)
    · split
      · rename_i heq
        exact List.pairwise_cons.mpr ⟨fun e he => by simpa [Before, heq] using h1 e he, h2⟩
      · rename_i hlt hne
        refine List.pairwise_cons.mpr ⟨fun e he => ?_, ih h2⟩
        rcases mem_place he with rfl | he
        · simp only [Before]; omega
        · exact h1 e he

def insert (m : SortedMap κ υ) (k : κ) (v : υ) : SortedMap κ υ := ⟨place k v m.entries, sorted_place k v m.sorted⟩

def erase (m : SortedMap κ υ) (k : κ) : SortedMap κ υ :=
  ⟨m.entries.filter (fun e => rank e.1 ≠ rank k), m.sorted.filter _⟩

def ofList (es : List (κ × υ)) : SortedMap κ υ := es.foldl (fun m e => m.insert e.1 e.2) empty

/-! ## Look-ups -/

@[simp] theorem get?_empty (k : κ) : (empty : SortedMap κ υ).get? k = none := rfl

theorem lookup_place (k k' : κ) (v : υ) (es : List (κ × υ)) :
    lookup k' (place k v es) = if rank k = rank k' then some v else lookup k' es := by
  induction es with
  | nil => simp [place, lookup]
  | cons e es ih =>
    obtain ⟨k₁, v₁⟩ := e
    unfold place
    split
    · simp [lookup]
    · split
      · rename_i heq
        simp only [lookup, heq]; split <;> rfl
      · simp only [lookup, ih]
        split <;> split <;> first | rfl | omega

theorem get?_insert (m : SortedMap κ υ) (k k' : κ) (v : υ) :
    (m.insert k v).get? k' = if rank k = rank k' then some v else m.get? k' :=
  lookup_place k k' v m.entries

theorem lookup_filter (k k' : κ) (es : List (κ × υ)) :
    lookup k' (es.filter (fun e => rank e.1 ≠ rank k)) = if rank k = rank k' then none else lookup k' es := by
  induction es with
  | nil => simp [lookup]
  | cons e es ih =>
    obtain ⟨k₁, v₁⟩ := e
    by_cases h : rank k₁ = rank k
    · rw [List.filter_cons_of_neg (by simp [h]), ih]
      simp only [lookup, h]; split <;> rfl
    · rw [List.filter_cons_of_pos (by simp [h])]
      simp only [lookup, ih]; split <;> split <;> first | rfl | omega

theorem get?_erase (m : SortedMap κ υ) (k k' : κ) :
    (m.erase k).get? k' = if rank k = rank k' then none else m.get? k' :=
  lookup_filter k k' m.entries

/-- A key before all others has no entry. -/
theorem lookup_of_before {k : κ} {es : List (κ × υ)} (h : ∀ e ∈ es, rank k < rank e.1) :
    lookup k es = none := by
  induction es with
  | nil => rfl
  | cons e es ih =>
    have hne : rank e.1 ≠ rank k := by have := h e List.mem_cons_self; omega
    rw [lookup, if_neg hne]
    exact ih fun e' he' => h e' (List.mem_cons_of_mem _ he')

theorem lookup_eq_some {k : κ} {v : υ} {es : List (κ × υ)} (hs : es.Pairwise Before) :
    lookup k es = some v ↔ (k, v) ∈ es := by
  induction es with
  | nil => simp [lookup]
  | cons e es ih =>
    obtain ⟨k₁, v₁⟩ := e
    obtain ⟨h1, h2⟩ := List.pairwise_cons.mp hs
    unfold lookup
    split
    · rename_i h
      have hk := Ranked.rank_inj h
      subst hk
      constructor
      · rintro ⟨⟩; exact List.mem_cons_self
      · intro hm
        rcases List.mem_cons.mp hm with hm | hm
        · cases hm; rfl
        · exact absurd (h1 _ hm) (Nat.lt_irrefl _)
    · rename_i h
      rw [ih h2, List.mem_cons]
      constructor
      · exact .inr
      · rintro (hm | hm)
        · cases hm; exact absurd rfl h
        · exact hm

theorem mem_entries_iff (m : SortedMap κ υ) {k : κ} {v : υ} : (k, v) ∈ m.entries ↔ m.get? k = some v :=
  (lookup_eq_some m.sorted).symm

theorem entries_eq {es fs : List (κ × υ)} (he : es.Pairwise Before) (hf : fs.Pairwise Before)
    (h : ∀ e, e ∈ es ↔ e ∈ fs) : es = fs := by
  induction es generalizing fs with
  | nil => exact (List.eq_nil_iff_forall_not_mem.mpr fun e hm => by simpa using (h e).mpr hm).symm
  | cons e es ih =>
    cases fs with
    | nil => exact absurd ((h e).mp List.mem_cons_self) List.not_mem_nil
    | cons f fs =>
      obtain ⟨he1, he2⟩ := List.pairwise_cons.mp he
      obtain ⟨hf1, hf2⟩ := List.pairwise_cons.mp hf
      have hef : e = f := by
        rcases List.mem_cons.mp ((h e).mp List.mem_cons_self) with rfl | h1
        · rfl
        · rcases List.mem_cons.mp ((h f).mpr List.mem_cons_self) with rfl | h2
          · rfl
          · exact absurd (hf1 e h1) (Nat.lt_asymm (he1 f h2))
      subst hef
      refine congrArg _ (ih he2 hf2 fun x => ⟨fun hx => ?_, fun hx => ?_⟩)
      · rcases List.mem_cons.mp ((h x).mp (List.mem_cons_of_mem _ hx)) with rfl | hx'
        · exact absurd (he1 x hx) (Nat.lt_irrefl _)
        · exact hx'
      · rcases List.mem_cons.mp ((h x).mpr (List.mem_cons_of_mem _ hx)) with rfl | hx'
        · exact absurd (hf1 x hx) (Nat.lt_irrefl _)
        · exact hx'

/-! ## Membership and size -/

@[simp] theorem contains_empty (k : κ) : (empty : SortedMap κ υ).contains k = false := rfl

@[simp] theorem size_empty : (empty : SortedMap κ υ).size = 0 := rfl

@[simp] theorem isEmpty_empty : (empty : SortedMap κ υ).isEmpty = true := rfl

theorem contains_insert (m : SortedMap κ υ) (k k' : κ) (v : υ) :
    (m.insert k v).contains k' = true ↔ k = k' ∨ m.contains k' = true := by
  rw [contains, get?_insert]
  by_cases h : k = k'
  · simp [h]
  · rw [if_neg fun e => h (Ranked.rank_inj e)]; simp [h, contains]

theorem contains_erase (m : SortedMap κ υ) (k k' : κ) :
    (m.erase k).contains k' = true ↔ k ≠ k' ∧ m.contains k' = true := by
  rw [contains, get?_erase]
  by_cases h : k = k'
  · simp [h]
  · rw [if_neg fun e => h (Ranked.rank_inj e)]; simp [h, contains]

theorem contains_iff_mem_keys (m : SortedMap κ υ) (k : κ) : m.contains k = true ↔ k ∈ m.keys := by
  simp only [contains, Option.isSome_iff_exists, ← mem_entries_iff, keys, List.mem_map]
  constructor
  · rintro ⟨v, h⟩; exact ⟨(k, v), h, rfl⟩
  · rintro ⟨e, h, rfl⟩; exact ⟨e.2, h⟩

theorem length_place {k : κ} (v : υ) {es : List (κ × υ)} (h : lookup k es = none) :
    (place k v es).length = es.length + 1 := by
  induction es with
  | nil => rfl
  | cons e es ih =>
    obtain ⟨k', v'⟩ := e
    simp only [lookup] at h
    split at h
    · cases h
    · rename_i hne
      unfold place
      split
      · rfl
      · rw [if_neg fun e => hne e.symm, List.length_cons, ih h, List.length_cons]

theorem size_insert {m : SortedMap κ υ} {k : κ} (v : υ) (h : m.contains k = false) :
    (m.insert k v).size = m.size + 1 :=
  length_place v (by simpa [contains, get?] using h)

theorem isEmpty_eq_false_iff (m : SortedMap κ υ) : m.isEmpty = false ↔ ∃ k, m.contains k = true := by
  simp only [contains_iff_mem_keys, keys, isEmpty]
  cases m.entries with
  | nil => simp
  | cons e es => exact ⟨fun _ => ⟨e.1, by simp⟩, fun _ => rfl⟩

theorem isEmpty_iff_size (m : SortedMap κ υ) : m.isEmpty = true ↔ m.size = 0 := by
  simp [isEmpty, size]

theorem nodup_keys (m : SortedMap κ υ) : m.keys.Nodup := by
  refine List.pairwise_map.mpr (m.sorted.imp ?_)
  intro e e' hbefore hkey
  unfold Before at hbefore
  rw [hkey] at hbefore
  omega

theorem size_eq_length_keys (m : SortedMap κ υ) : m.size = m.keys.length := List.length_map _ |>.symm

/-! ## Equality -/

/-- Maps that look up alike are equal. -/
theorem eq_of_get?_eq {a b : SortedMap κ υ} (h : ∀ k, a.get? k = b.get? k) : a = b := by
  have : a.entries = b.entries := entries_eq a.sorted b.sorted fun (k, v) => by
    rw [mem_entries_iff, mem_entries_iff, h]
  cases a; cases b; simpa using this

/-- Sets of the same members are equal. -/
theorem eq_of_contains_iff {a b : SortedSet κ} (h : ∀ k, a.contains k = true ↔ b.contains k = true) : a = b := by
  refine eq_of_get?_eq fun k => ?_
  have hk := h k
  unfold contains at hk
  cases ha : a.get? k with
  | none => cases hb : b.get? k with
    | none => rfl
    | some _ => simp [ha, hb] at hk
  | some _ => cases hb : b.get? k with
    | none => simp [ha, hb] at hk
    | some _ => rfl

theorem insert_self {m : SortedMap κ υ} {k : κ} {v : υ} (h : m.get? k = some v) : m.insert k v = m := by
  refine eq_of_get?_eq fun k' => ?_
  rw [get?_insert]
  split
  · rename_i hk
    rw [← Ranked.rank_inj hk, h]
  · rfl

/-! ## What two maps have in common -/

/-- Whether two maps have a key in common can be told by walking one of them. -/
theorem any_contains_iff {α : Type} (a : SortedMap κ υ) (b : SortedMap κ α) :
    a.keys.any b.contains = true ↔ ∃ k, a.contains k = true ∧ b.contains k = true := by
  simp only [List.any_eq_true, contains_iff_mem_keys]

/-- It does not matter which. -/
theorem any_contains_comm {α : Type} (a : SortedMap κ υ) (b : SortedMap κ α) :
    a.keys.any b.contains = b.keys.any a.contains := by
  rw [Bool.eq_iff_iff, any_contains_iff, any_contains_iff]
  simp only [And.comm]

/-- The keys of a map that another one has too, with both values. -/
def join {α : Type} (a : SortedMap κ υ) (b : SortedMap κ α) : List (κ × υ × α) :=
  a.entries.filterMap fun e => (b.get? e.1).map fun w => (e.1, e.2, w)

theorem mem_join_iff {α : Type} (a : SortedMap κ υ) (b : SortedMap κ α) (k : κ) (v : υ) (w : α) :
    (k, v, w) ∈ a.join b ↔ a.get? k = some v ∧ b.get? k = some w := by
  unfold join
  rw [List.mem_filterMap]
  constructor
  · rintro ⟨⟨k', v'⟩, hmem, heq⟩
    obtain ⟨w', hw, hsame⟩ := Option.map_eq_some_iff.mp heq
    cases hsame
    exact ⟨a.mem_entries_iff.mp hmem, hw⟩
  · rintro ⟨hv, hw⟩
    exact ⟨(k, v), a.mem_entries_iff.mpr hv, by rw [hw]; rfl⟩

theorem sorted_join {α : Type} (a : SortedMap κ υ) (b : SortedMap κ α) : (a.join b).Pairwise Before := by
  refine List.pairwise_filterMap.mpr (a.sorted.imp ?_)
  intro e e' hbefore x hx x' hx'
  obtain ⟨w, -, rfl⟩ := Option.map_eq_some_iff.mp hx
  obtain ⟨w', -, rfl⟩ := Option.map_eq_some_iff.mp hx'
  exact hbefore

/-- Whichever of two maps is walked, what they have in common comes in the same order. -/
theorem filterMap_get? {α β : Type} (a : SortedMap κ υ) (b : SortedMap κ α) (f : κ → υ → α → β) :
    a.entries.filterMap (fun e => (b.get? e.1).map (f e.1 e.2)) =
      b.entries.filterMap fun e => (a.get? e.1).map fun v => f e.1 v e.2 := by
  have hswap : a.join b = (b.join a).map fun e => (e.1, e.2.2, e.2.1) := by
    refine entries_eq (a.sorted_join b) ?_ ?_
    · exact List.pairwise_map.mpr (b.sorted_join a)
    · rintro ⟨k, v, w⟩
      rw [mem_join_iff, List.mem_map]
      constructor
      · intro h
        exact ⟨(k, w, v), (mem_join_iff b a k w v).mpr h.symm, rfl⟩
      · rintro ⟨⟨k', w', v'⟩, hmem, heq⟩
        cases heq
        exact ((mem_join_iff b a k' w' v').mp hmem).symm
  have hleft : a.entries.filterMap (fun e => (b.get? e.1).map (f e.1 e.2)) =
      (a.join b).map fun e => f e.1 e.2.1 e.2.2 := by
    simp only [join, List.map_filterMap, Option.map_map]
    rfl
  rw [hleft, hswap]
  simp only [join, List.map_filterMap, Option.map_map]
  rfl

end SortedMap

end LedgerWatch
