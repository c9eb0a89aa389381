/-
  LedgerWatch.Proofs.Subscriptions.Interest — what a session is interested in.

  - `meets_iff`: the impacted accounts meet the followed ones exactly when they share one,
    whichever of the two sets is walked.
  - `watches_after`: an item that is watched stays watched until an action installs.
-/

import LedgerWatch.Proofs.Subscriptions.Actions

namespace LedgerWatch.Subscriptions

/-! ## Followed accounts -/

theorem meets_iff (s : Subscriptions) (impacted : SortedSet AccountId) :
    s.meets impacted = true ↔ ∃ a, impacted.contains a = true ∧ s.followed.contains a = true := by
  have none_of_isEmpty {m : SortedSet AccountId} (h : m.isEmpty = true) (a : AccountId) : m.contains a ≠ true :=
    fun ha => by simpa [h] using (SortedMap.isEmpty_eq_false_iff m).mpr ⟨a, ha⟩
  unfold meets
  split
  · rename_i h
    rw [Bool.or_eq_true] at h
    refine ⟨Bool.noConfusion, fun ⟨a, ha, hb⟩ => ?_⟩
    rcases h with h | h
    · exact absurd ha (none_of_isEmpty h a)
    · exact absurd hb (none_of_isEmpty h a)
  · split
    · exact SortedMap.any_contains_iff impacted s.followed
    · rw [SortedMap.any_contains_comm]
      exact SortedMap.any_contains_iff impacted s.followed

theorem meets_eq_any (s : Subscriptions) (impacted : SortedSet AccountId) :
    s.meets impacted = impacted.keys.any s.followed.contains := by
  rw [Bool.eq_iff_iff, meets_iff, SortedMap.any_contains_iff]

theorem meets_never_iff (s : Subscriptions) : (∀ impacted, s.meets impacted = false) ↔ s.followed.isEmpty = true := by
  constructor
  · intro h
    by_contra hne
    obtain ⟨a, ha⟩ := (SortedMap.isEmpty_eq_false_iff _).mp (Bool.not_eq_true _ ▸ hne)
    have := (meets_iff s (SortedMap.empty.insert a ())).mpr ⟨a, (SortedMap.contains_insert ..).mpr (.inl rfl), ha⟩
    rw [h] at this
    cases this
  · intro h impacted
    simp [meets, h]

/-! ## Watched items -/

theorem watches_iff (s : Subscriptions) (x : Watchable) :
    s.watches x = true ↔ ∃ u, s.update = some u ∧ u.filter.contains x.bytes = true := by
  cases h : s.update <;> simp [watches, h]

/-- Items of the same bytes are watched alike. -/
theorem watches_congr {s : Subscriptions} {x y : Watchable} (h : x.bytes = y.bytes) : s.watches x = s.watches y := by
  unfold watches
  rw [h]

theorem watches_act {s : Subscriptions} {a : Action} (ha : a.installs? s.settings = none) {x : Watchable}
    (hx : s.watches x = true) : (s.act a).watches x = true := by
  obtain ⟨u, hu, hc⟩ := (watches_iff s x).mp hx
  rw [watches_iff, (act_keeps ha).1]
  cases a.armed? with
  | none => exact ⟨u, hu, hc⟩
  | some item =>
    simp only [arm_snd, hu, Option.map_some, Option.some.injEq]
    exact ⟨_, rfl, BloomFilter.contains_insert_of_contains hc _⟩

/-- Without an install in between, what is watched stays watched. -/
theorem watches_after {s : Subscriptions} {acts : List Action} (h : ∀ a ∈ acts, a.installs? s.settings = none)
    {x : Watchable} (hx : s.watches x = true) : (s.after acts).watches x = true := by
  induction acts generalizing s with
  | nil => exact hx
  | cons a acts ih =>
    rw [after_cons]
    refine ih (fun b hb => ?_) (watches_act (h a List.mem_cons_self) hx)
    rw [settings_act]
    exact h b (List.mem_cons_of_mem _ hb)

theorem isSubscribed_act {s : Subscriptions} {a : Action} (ha : a.installs? s.settings = none) :
    (s.act a).isSubscribed = s.isSubscribed := by
  rw [isSubscribed, (act_keeps ha).1]
  cases a.armed? <;> simp [isSubscribed]

end LedgerWatch.Subscriptions
