/-
  LedgerWatch.Proofs.Subscriptions.Impact — impact is a common member, whichever set is walked.

  A signal names the accounts it impacts, a session has the ones it follows. `meets` walks
  the smaller of the two sets and looks its members up in the other one. Which it walks
  does not show in the answer (`meets_eq_any`, `meets_eq_any_followed`):

      walk the smaller = walk the impacted ones = walk the ones followed

  so the sizes are only a matter of time, the two sets can change places (`meets_comm`),
  and more accounts in one of them can only add an answer (`meets_mono`).

  - `followed_exactly`: under a cap that is large enough, any set is the one followed by
    the session that asks for its members.
  - `impact_is_common_member`: all of it, for any two sets.
-/

import LedgerWatch.Proofs.Subscriptions.Interest

namespace LedgerWatch

/-- Every key of one map is a key of the other. -/
def SortedMap.Within {κ υ : Type} [Ranked κ] (a b : SortedMap κ υ) : Prop :=
  ∀ k, a.contains k = true → b.contains k = true

namespace Subscriptions

/-! ## A session that follows a given set -/

theorem eraseDups_of_nodup {accounts : List AccountId} (h : accounts.Nodup) : accounts.eraseDups = accounts := by
  induction accounts using List.reverseRecOn with
  | nil => rfl
  | append_singleton accounts a ih =>
    obtain ⟨hbefore, -, happart⟩ := List.nodup_append.mp h
    have hnew : a ∉ accounts := fun ha => happart a ha a (List.mem_singleton.mpr rfl) rfl
    rw [eraseDups_snoc, if_neg hnew, ih hbefore]

/-- Asks for a callback and then for each account of a set. -/
def followEach (callback : Callback) (accounts : SortedSet AccountId) : List Action :=
  .install (some callback) false :: accounts.keys.map .follow

theorem followedSince_followEach (settings : Settings) (callback : Callback) (accounts : SortedSet AccountId) :
    followedSince settings (followEach callback accounts) = accounts.keys := by
  have hkeeps : ∀ a ∈ accounts.keys.map Action.follow, a.installs? settings = none := by
    intro a ha
    obtain ⟨account, -, rfl⟩ := List.mem_map.mp ha
    rfl
  have hinstall : followedSince settings [.install (some callback) false] = [] := rfl
  have hasked : (accounts.keys.map Action.follow).filterMap Action.followed? = accounts.keys := by
    rw [List.filterMap_map]
    exact List.filterMap_some
  rw [followEach, ← List.singleton_append, followedSince_append settings hkeeps, hinstall, hasked, List.nil_append]

/-- No account of the set is left out, and no other is followed. -/
theorem followed_exactly (settings : Settings) (callback : Callback) {accounts : SortedSet AccountId}
    (h : accounts.size ≤ settings.maxFollowed) :
    ((new settings).after (followEach callback accounts)).followed = accounts := by
  have hfollows := follows_after settings (followEach callback accounts)
  have hfits : accounts.keys.length ≤ settings.maxFollowed := by rwa [← SortedMap.size_eq_length_keys]
  have hall : firstUpTo settings.maxFollowed accounts.keys = accounts.keys := by
    rw [firstUpTo, eraseDups_of_nodup accounts.nodup_keys, List.take_of_length_le hfits]
  rw [followedSince_followEach, hall] at hfollows
  refine SortedMap.eq_of_contains_iff fun a => ?_
  rw [hfollows.2 a, SortedMap.contains_iff_mem_keys]

/-! ## Walking either set -/

theorem meets_eq_any_followed (s : Subscriptions) (impacted : SortedSet AccountId) :
    s.meets impacted = s.followed.keys.any impacted.contains := by
  rw [meets_eq_any, SortedMap.any_contains_comm]

/-- Two sessions answer alike, each for what the other one follows. -/
theorem meets_comm (s t : Subscriptions) : s.meets t.followed = t.meets s.followed := by
  rw [meets_eq_any, meets_eq_any_followed]

/-- What met goes on meeting as either set grows. -/
theorem meets_mono {s t : Subscriptions} {impacted more : SortedSet AccountId} (hs : s.followed.Within t.followed)
    (hi : impacted.Within more) (h : s.meets impacted = true) : t.meets more = true := by
  obtain ⟨a, ha, hfollowed⟩ := (meets_iff s impacted).mp h
  exact (meets_iff t more).mpr ⟨a, hi a ha, hs a hfollowed⟩

theorem meets_of_empty {s : Subscriptions} {impacted : SortedSet AccountId}
    (h : s.followed.isEmpty = true ∨ impacted.isEmpty = true) : s.meets impacted = false := by
  rcases h with h | h
  · exact (meets_never_iff s).mpr h impacted
  · rw [meets, h]
    rfl

/-- For any two sets of accounts, a session that follows the one (and under a cap that is large enough some session
does) is impacted through the other exactly if they have an account in common. To walk either set gives the same
answer, whatever their sizes; so it is the same with the sets exchanged, stays if either grows, and is no if either
is empty. -/
theorem impact_is_common_member (watched impacted : SortedSet AccountId) :
    (∀ settings callback, watched.size ≤ settings.maxFollowed →
      ((new settings).after (followEach callback watched)).followed = watched) ∧
    ∀ s : Subscriptions, s.followed = watched →
      (s.meets impacted = true ↔ ∃ a, impacted.contains a = true ∧ watched.contains a = true) ∧
      (s.meets impacted = impacted.keys.any watched.contains ∧
        s.meets impacted = watched.keys.any impacted.contains) ∧
      (∀ t : Subscriptions, t.followed = impacted → t.meets watched = s.meets impacted) ∧
      (∀ more, impacted.Within more → s.meets impacted = true → s.meets more = true) ∧
      (∀ t : Subscriptions, watched.Within t.followed → s.meets impacted = true → t.meets impacted = true) ∧
      (watched.isEmpty = true ∨ impacted.isEmpty = true → s.meets impacted = false) := by
  refine ⟨fun settings callback h => followed_exactly settings callback h, ?_⟩
  intro s hs
  subst hs
  have itself (m : SortedSet AccountId) : m.Within m := fun _ h => h
  have hwalks := And.intro (meets_eq_any s impacted) (meets_eq_any_followed s impacted)
  refine ⟨meets_iff s impacted, hwalks, ?_, ?_, ?_, meets_of_empty⟩
  · intro t ht
    subst ht
    exact meets_comm t s
  · intro more hmore h
    exact meets_mono (itself _) hmore h
  · intro t ht h
    exact meets_mono ht (itself _) h

/-- Accounts by their numbers. -/
def accountSet (numbers : List UInt64) : SortedSet AccountId := .ofList (numbers.map fun n => (⟨n⟩, ()))

/-- Three accounts are followed. Account 5 alone impacts the session and is walked; of five impacted accounts the
three followed are walked instead, and 5 is found as well; without it the answer is no. -/
theorem impact_is_common_member_of_three :
    let watched := accountSet [2, 5, 7]
    let s := (new .standard).after (followEach ⟨"a", none⟩ watched)
    s.followed = watched ∧
      (s.meets (accountSet [5]) = true ↔ ∃ a, (accountSet [5]).contains a = true ∧ watched.contains a = true) ∧
      s.meets (accountSet [5]) = true ∧ s.meets (accountSet [1, 3, 4, 5, 6]) = true ∧
      s.meets (accountSet [1, 3, 4, 6]) = false ∧
      ∀ t : Subscriptions, t.followed = accountSet [5] → t.meets watched = s.meets (accountSet [5]) := by
  intro watched s
  obtain ⟨hfollow, hmeets⟩ := impact_is_common_member watched (accountSet [5])
  have hs : s.followed = watched := hfollow .standard ⟨"a", none⟩ (by decide)
  obtain ⟨hcommon, -, hswapped, hmore, -⟩ := hmeets s hs
  have hfive : s.meets (accountSet [5]) = true := hcommon.mpr ⟨⟨5⟩, by decide, by decide⟩
  have hwithin : (accountSet [5]).Within (accountSet [1, 3, 4, 5, 6]) := by
    intro a ha
    rw [SortedMap.contains_iff_mem_keys] at ha
    obtain rfl : a = ⟨5⟩ := List.mem_singleton.mp ha
    decide
  exact ⟨hs, hcommon, hfive, hmore _ hwithin hfive, by decide +kernel, hswapped⟩

end Subscriptions

end LedgerWatch
