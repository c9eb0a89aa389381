/-
  LedgerWatch.Proofs.Session.Followed — accounts followed without a callback.

  Whoever takes his callback back is rid of the accounts he followed. But following asks
  for no callback: a query for full accounts follows what it finds also while there is
  none, up to the cap, and it stays so until the next install.

  - `trackedSince`: the accounts a session asked to follow since its last install.
  - `followsNobody_iff`: nobody is followed exactly when the cap is 0 or no account was
    asked for.
  - `nobody_followed_iff`: when a state without a callback follows nobody, for any actions
    and for the turns of a session.
  - `followed_without_callback`: a state without a callback where somebody is followed.
-/

import LedgerWatch.Proofs.Session.Turns
import LedgerWatch.Proofs.Subscriptions.Interest

namespace LedgerWatch.Subscriptions

/-- The turns of a session behind the last one that installed. -/
def turnsSince (settings : Settings) (turns : List Turn) : List Turn :=
  (turns.reverse.takeWhile (!Turn.installs settings ·)).reverse

def trackedSince (settings : Settings) (turns : List Turn) : List AccountId :=
  (turnsSince settings turns).flatMap Turn.tracked

/-! ## What a session asked to follow -/

theorem followed?_tracks (s : Subscriptions) (as : List AccountId) : (s.tracks as).filterMap Action.followed? = as := by
  induction as generalizing s with
  | nil => rfl
  | cons a as ih =>
    show a :: List.filterMap Action.followed? (_ ++ _) = a :: as
    rw [List.filterMap_append, ih]
    cases (s.follow a).1 <;> rfl

theorem followed?_turnActions {settings : Settings} {t : Turn} (h : t.installs settings = false) (s : Subscriptions) :
    (s.turnActions t).filterMap Action.followed? = t.tracked := by
  have query (l : Ledger) (r : Request) :
      ((r.items l).map Action.arm ++ s.tracks (r.tracked l)).filterMap Action.followed? = r.tracked l := by
    have harm : ((r.items l).map Action.arm).filterMap Action.followed? = [] := by
      rw [List.filterMap_map]
      exact List.filterMap_eq_nil_iff.mpr fun _ _ => rfl
    rw [List.filterMap_append, followed?_tracks, harm, List.nil_append]
  cases t with
  | close => cases h
  | request l r =>
    cases r with
    | unsubscribeAll => cases h
    | subscribe | subscribePending | subscribeBlocks | subscribeMarket | unsubscribeMarket => rfl
    | getObjects | getAccounts | getFullAccounts | lookupAccounts | getAssets | getKeyReferences | getBalances =>
      exact query l _

variable (settings : Settings)

/-- The follow actions in a session's past are those of its tracking queries. -/
theorem followedSince_history (turns : List Turn) :
    followedSince settings ((new settings).history turns) = trackedSince settings turns := by
  induction turns using List.reverseRecOn with
  | nil => rfl
  | append_singleton turns t ih =>
    rw [history_snoc, trackedSince, turnsSince, List.reverse_append, List.reverse_singleton, List.singleton_append]
    cases h : t.installs settings with
    | true =>
      obtain ⟨a, i, ha, hi⟩ := turnActions_installs h ((new settings).afterTurns turns)
      rw [ha, followedSince, (since_snoc_installs settings hi _).2, List.takeWhile_cons_of_neg (by simp [h])]
      rfl
    | false =>
      rw [followedSince_append settings (turnActions_keeps h _), followed?_turnActions h, ih,
        List.takeWhile_cons_of_pos (by simp [h]), List.reverse_cons, List.flatMap_append, List.flatMap_singleton]
      rfl

/-! ## Nobody followed -/

/-- No account is followed, so that no impacted ones are met. -/
def FollowsNobody (s : Subscriptions) : Prop := s.followed.isEmpty = true ∧ ∀ impacted, s.meets impacted = false

theorem followsNobody_iff (acts : List Action) :
    FollowsNobody ((new settings).after acts) ↔ settings.maxFollowed = 0 ∨ followedSince settings acts = [] := by
  rw [FollowsNobody, meets_never_iff, and_self, SortedMap.isEmpty_iff_size, (follows_after settings acts).1,
    List.length_eq_zero_iff, firstUpTo_eq_nil_iff]

/-- Without a callback nobody is followed exactly when no account was asked for since the last install, or
the cap is 0. -/
theorem nobody_followed_iff :
    (∀ acts, let s := (new settings).after acts
      (s.update = none → FollowsNobody s) ↔
        s.update.isSome = true ∨ settings.maxFollowed = 0 ∨ followedSince settings acts = []) ∧
    (∀ turns, let s := (new settings).afterTurns turns
      (s.update = none → FollowsNobody s) ↔
        s.update.isSome = true ∨ settings.maxFollowed = 0 ∨ trackedSince settings turns = []) := by
  have unless_callback {s : Subscriptions} {p : Prop} (h : FollowsNobody s ↔ p) :
      (s.update = none → FollowsNobody s) ↔ s.update.isSome = true ∨ p := by
    rw [h]
    cases s.update <;> simp
  refine ⟨fun acts => unless_callback (followsNobody_iff settings acts), fun turns => unless_callback ?_⟩
  rw [afterTurns_eq_after, followsNobody_iff, followedSince_history]

/-- Of one account, number 5, named `a`. -/
def oneAccount : Ledger := Ledger.empty.insert (.account ⟨Kind.account.id 5, "a", ⟨0⟩, [], []⟩)

/-- With no callback ever installed an account can be followed, by the action alone and through a query, and
a change that impacts it is met. -/
theorem followed_without_callback :
    let s := (new .standard).after [.follow ⟨5⟩]
    let t := (new .standard).afterTurns [.request oneAccount (.getFullAccounts ["a"] true)]
    let impacted := SortedMap.empty.insert ⟨5⟩ ()
    (s.update = none ∧ s.followed.isEmpty = false ∧ s.meets impacted = true) ∧
      t.update = none ∧ t.followed.isEmpty = false ∧ t.meets impacted = true := by
  decide +kernel

end LedgerWatch.Subscriptions
