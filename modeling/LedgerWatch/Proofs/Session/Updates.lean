/-
  LedgerWatch.Proofs.Session.Updates — the update batch a signal comes to.

  Whatever a set of changes holds, a session with a callback gets at most one batch of
  updates for it, under that callback (`updatesFor`, `updates_of_change`). Every change
  of interest that can be told is in it, in the order of the signal (`tellable_sublist`),
  so there is a batch as soon as there is one such change.

  `interesting` says of a list of ids which are of interest, `tellable_eq` that these are
  the ones told, and `updateNotices_anomalies` that those of them that cannot be told are
  the ones counted.
-/

import LedgerWatch.Proofs.Subscriptions.Interest
import LedgerWatch.Session.Notices

namespace LedgerWatch.Subscriptions

/-- What a session is told of a set of changes. -/
def tellable (s : Subscriptions) (c : Change) : List Json := (c.ids.filter (s.isOfInterest c)).filterMap (told? c)

/-- No batch if there is nothing to tell, else one. -/
def updateBatch (callback : Callback) (items : List Json) : List Batch :=
  if items.isEmpty then [] else [⟨.updates, callback, .arr items⟩]

/-- The update batch of a session, if it has a callback and there is something to tell. -/
def updatesFor (s : Subscriptions) (items : List Json) : List Batch :=
  match s.update with
  | none => []
  | some u => updateBatch u.callback items

def isUpdate (b : Batch) : Bool := b.stream = .updates

theorem updateNotices_batches (s : Subscriptions) (c : Change) :
    (s.updateNotices c).batches = s.updatesFor (s.tellable c) := by
  unfold updateNotices updatesFor
  cases s.update <;> rfl

theorem marketBatches_stream {α : Type} {s : Subscriptions} {q : MarketQueues α} {write : List α → Json} {b : Batch}
    (h : b ∈ s.marketBatches q write) : b.stream = .market := by
  obtain ⟨⟨m, items⟩, _, hb⟩ := List.mem_filterMap.mp h
  obtain ⟨callback, _, rfl⟩ := Option.map_eq_some_iff.mp hb
  rfl

theorem updates_of_markets (s : Subscriptions) (c : Change) : (s.marketNotices c).batches.filter isUpdate = [] := by
  rw [List.filter_eq_nil_iff]
  intro b hb
  have hmarket : b.stream = .market := marketBatches_stream hb
  simp [isUpdate, hmarket]

theorem mem_updatesFor {s : Subscriptions} {items : List Json} {b : Batch} (h : b ∈ s.updatesFor items) :
    b.stream = .updates ∧ b.payload = .arr items := by
  unfold updatesFor at h
  split at h
  · contradiction
  · unfold updateBatch at h
    split at h
    · contradiction
    · rw [List.mem_singleton.mp h]
      exact ⟨rfl, rfl⟩

theorem updatesFor_nil (s : Subscriptions) : s.updatesFor [] = [] := by
  unfold updatesFor
  cases s.update <;> rfl

/-- One batch of updates at most for a set of changes. -/
theorem updates_of_change (s : Subscriptions) (c : Change) :
    (s.changeNotices c).batches.filter isUpdate = s.updatesFor (s.tellable c) := by
  unfold changeNotices
  by_cases hids : c.ids.isEmpty = true
  · rw [if_pos hids, tellable, List.isEmpty_iff.mp hids]
    exact s.updatesFor_nil.symm
  · have hupdates : (s.updatesFor (s.tellable c)).filter isUpdate = s.updatesFor (s.tellable c) :=
      List.filter_eq_self.mpr fun _ hb => decide_eq_true (mem_updatesFor hb).1
    rw [if_neg hids]
    simp only [List.filter_append, updateNotices_batches, hupdates]
    by_cases hm : s.hasMarkets = true
    · rw [if_pos hm, updates_of_markets, List.append_nil]
    · rw [if_neg hm]
      exact List.append_nil _

/-- What is sure to be of interest is told, as far as it can be. -/
theorem tellable_sublist {s : Subscriptions} {c : Change} {p : ObjectId → Bool}
    (hp : ∀ id, p id = true → s.isOfInterest c id = true) :
    ((c.ids.filter p).filterMap (told? c)).Sublist (s.tellable c) := by
  refine List.Sublist.filterMap _ ?_
  have hfilter : c.ids.filter p = (c.ids.filter (s.isOfInterest c)).filter p := by
    rw [List.filter_filter]
    refine List.filter_congr fun id _ => ?_
    cases h : p id with
    | true => rw [hp id h, Bool.and_true]
    | false => rw [Bool.false_and]
  rw [hfilter]
  exact List.filter_sublist

/-! ## What is of interest -/

/-- Of a list of ids, each as often as it is there: all if all is asked for or an account that is followed is
impacted, else those that are watched. -/
def interesting (s : Subscriptions) (all : Bool) (impacted : SortedSet AccountId) (ids : List ObjectId) : List ObjectId :=
  ids.filter fun x => all || impacted.keys.any s.followed.contains || s.watches (.object x)

theorem filter_isOfInterest (s : Subscriptions) (c : Change) :
    c.ids.filter (s.isOfInterest c) = s.interesting c.force c.impacted c.ids := by
  unfold interesting
  refine List.filter_congr ?_
  intro x _
  rw [isOfInterest, meets_eq_any]

theorem tellable_eq (s : Subscriptions) (c : Change) :
    s.tellable c = (s.interesting c.force c.impacted c.ids).filterMap (told? c) := by
  rw [tellable, filter_isOfInterest]

theorem length_sub_filterMap {α β : Type} (f : α → Option β) (xs : List α) :
    xs.length - (xs.filterMap f).length = xs.countP fun x => (f x).isNone := by
  have hall := List.length_eq_countP_add_countP (fun x => (f x).isSome) (l := xs)
  have hnone : xs.countP (fun x => decide ¬(f x).isSome = true) = xs.countP fun x => (f x).isNone := by
    refine List.countP_congr ?_
    intro x _
    simp
  rw [List.length_filterMap_eq_countP]
  omega

/-- How many of a list of ids come to nothing, if there is a callback for updates. -/
def unresolved {α : Type} (s : Subscriptions) (f : ObjectId → Option α) (ids : List ObjectId) : Nat :=
  if s.isSubscribed then ids.countP fun x => (f x).isNone else 0

/-- What is of interest is told, or it is counted. -/
theorem updateNotices_anomalies (s : Subscriptions) (c : Change) :
    (s.updateNotices c).anomalies = s.unresolved (told? c) (s.interesting c.force c.impacted c.ids) := by
  unfold updateNotices unresolved isSubscribed
  cases s.update with
  | none => rfl
  | some u =>
    show (c.ids.filter (s.isOfInterest c)).length - ((c.ids.filter (s.isOfInterest c)).filterMap (told? c)).length = _
    rw [length_sub_filterMap, filter_isOfInterest]
    rfl

/-- Whatever is told whole has to resolve. -/
theorem unresolved_whole (s : Subscriptions) {c : Change} (hc : c.whole = true) (ids : List ObjectId) :
    s.unresolved (told? c) ids = s.unresolved c.resolve ids := by
  have htold : ∀ x, (told? c x).isNone = (c.resolve x).isNone := by
    intro x
    rw [told?, if_pos hc]
    exact Option.isNone_map
  unfold unresolved
  simp only [htold]

/-- What is told by its id alone need not. -/
theorem unresolved_bare (s : Subscriptions) {c : Change} (hc : c.whole = false) (ids : List ObjectId) :
    s.unresolved (told? c) ids = 0 := by
  have htold : ∀ x, (told? c x).isNone = false := by
    intro x
    rw [told?, hc]
    rfl
  unfold unresolved
  simp [htold]

end LedgerWatch.Subscriptions
