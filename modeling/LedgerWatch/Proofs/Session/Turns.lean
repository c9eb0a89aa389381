/-
  LedgerWatch.Proofs.Session.Turns — what a session's requests do to its subscriptions.

  A session is served one `Turn` at a time: a request, answered from the ledger as it is
  then, or its close. Whatever the turn, what becomes of the subscriptions is a run of
  `Action`s (`turn_eq_after`), so all that holds of every such run holds of every session.

  - `Request.items`: what a query arms; full accounts are followed as well and have
    `tracks`, since whether an account is armed depends on the cap.
  - `turnActions_keeps`, `turnActions_installs`: an accepted subscription and taking
    everything back are the turns that install.
  - `afterTurns_eq_after`: a session's subscriptions are what its `history` makes them.
-/

import LedgerWatch.Proofs.Subscriptions.Actions
import LedgerWatch.Session.Requests

namespace LedgerWatch

/-- The accounts that the names and ids among `keys` stand for, in order. -/
def Ledger.resolved (l : Ledger) (keys : List String) : List AccountId :=
  keys.filterMap fun key => (l.resolve? key).map Account.accountId

open Subscriptions in
/-- The items a query arms whether or not an account is followed. -/
def Request.items (l : Ledger) : Request → List Watchable
  | .getObjects ids => (ids.filter (!isHistory ·)).map .object
  | .getAccounts ids => (ids.filter fun id => (l.account? id).isSome).map .account
  | .getAssets ids => (ids.filter fun id => (l.asset? id).isSome).map .asset
  | .lookupAccounts lower limit =>
    if maxLookup < limit then []
    else
      match l.accountsFrom lower limit with
      | [only] => [.account only.accountId]
      | _ => []
  | .getKeyReferences keys =>
    (keys.flatMap fun k => [.key k, .address k.address]) ++ (keys.map (references l)).flatten.map .account
  | .getBalances addresses => addresses.map .address
  | _ => []

/-- The accounts a query asks to follow. -/
def Request.tracked (l : Ledger) : Request → List AccountId
  | .getFullAccounts keys true => l.resolved keys
  | _ => []

/-- One thing that happens to a session. -/
inductive Turn where
  | request (ledger : Ledger) (request : Request)
  | close

namespace Turn

/-- Whether a turn starts the update side over: an accepted subscription, or taking everything back. -/
def installs (settings : Settings) : Turn → Bool
  | .request _ (.subscribe _ notifyAll) => !notifyAll || settings.subscribeToAll
  | .request _ .unsubscribeAll | .close => true
  | _ => false

/-- The accounts a turn asks to follow. -/
def tracked : Turn → List AccountId
  | .request l r => r.tracked l
  | .close => []

end Turn

namespace Subscriptions

def turn (s : Subscriptions) : Turn → Subscriptions
  | .request l r => (s.serve l r).2
  | .close => s.tearDown

def afterTurns (s : Subscriptions) (turns : List Turn) : Subscriptions := turns.foldl turn s

/-- Following accounts one after the other, each armed if it is followed. -/
def tracks (s : Subscriptions) : List AccountId → List Action
  | [] => []
  | a :: as => .follow a :: ((if (s.follow a).1 then [.arm (.account a)] else []) ++ tracks (s.track a) as)

/-- The actions of a request. -/
def actions (l : Ledger) (s : Subscriptions) : Request → List Action
  | .subscribe callback notifyAll => [.install (some callback) notifyAll]
  | .unsubscribeAll => [.cancel]
  | .subscribePending callback => [.setPending callback]
  | .subscribeBlocks callback => [.setBlock callback]
  | .subscribeMarket callback a b => [.subscribeMarket callback a b]
  | .unsubscribeMarket a b => [.unsubscribeMarket a b]
  | r => (r.items l).map .arm ++ s.tracks (r.tracked l)

def turnActions (s : Subscriptions) : Turn → List Action
  | .request l r => s.actions l r
  | .close => [.tearDown]

/-! ## A turn is a run of actions -/

theorem armAll_eq_after (s : Subscriptions) (items : List Watchable) : s.armAll items = s.after (items.map .arm) := by
  simp only [armAll, after, List.foldl_map]
  rfl

theorem track_eq (s : Subscriptions) (a : AccountId) :
    s.track a = if (s.follow a).1 then ((s.follow a).2.arm (.account a)).2 else (s.follow a).2 := by
  unfold track
  rcases s.follow a with ⟨_ | _, s'⟩ <;> rfl

theorem foldl_track_eq_after (s : Subscriptions) (as : List AccountId) : as.foldl track s = s.after (s.tracks as) := by
  induction as generalizing s with
  | nil => rfl
  | cons a as ih =>
    rw [List.foldl_cons, ih, tracks, after_cons, after_append]
    congr 1
    rw [track_eq]
    cases (s.follow a).1 <;> rfl

theorem resolved_eq (l : Ledger) (keys : List String) :
    (keys.filterMap fun key => (l.resolve? key).map fun a => (key, a)).map (·.2.accountId) = l.resolved keys := by
  simp only [Ledger.resolved, List.map_filterMap, Option.map_map]
  rfl

/-- A request changes the subscriptions by its actions. -/
theorem serve_eq_after (l : Ledger) (s : Subscriptions) (r : Request) : (s.serve l r).2 = s.after (s.actions l r) := by
  cases r with
  | subscribe callback notifyAll =>
    simp only [serve, actions, after_cons, after_nil, act]
    cases s.install (some callback) notifyAll <;> rfl
  | unsubscribeAll | subscribePending | subscribeBlocks => rfl
  | subscribeMarket callback a b =>
    simp only [serve, actions, after_cons, after_nil, act]
    cases s.subscribeMarket callback a b <;> rfl
  | unsubscribeMarket a b =>
    simp only [serve, actions, after_cons, after_nil, act]
    cases s.unsubscribeMarket a b <;> rfl
  | getObjects ids | getAccounts ids | getAssets ids | getKeyReferences keys | getBalances addresses =>
    simp only [serve, actions, Request.tracked, tracks, List.append_nil]
    exact armAll_eq_after ..
  | getFullAccounts keys subscribe =>
    cases subscribe with
    | false => rfl
    | true =>
      simp only [serve, actions, Request.items, Request.tracked, List.map_nil, List.nil_append, getFullAccounts,
        if_true, resolved_eq]
      exact foldl_track_eq_after s _
  | lookupAccounts lower limit =>
    simp only [serve, actions, Request.items, Request.tracked, tracks, List.append_nil, lookupAccounts]
    by_cases h : maxLookup < limit
    · simp only [h, if_true]; rfl
    · simp only [h, if_false]
      cases l.accountsFrom lower limit with
      | nil => rfl
      | cons a as => cases as <;> rfl

theorem turn_eq_after (s : Subscriptions) (t : Turn) : s.turn t = s.after (s.turnActions t) := by
  cases t with
  | request l r => exact serve_eq_after l s r
  | close => rfl

/-! ## Which turns install -/

theorem tracks_keeps (settings : Settings) (s : Subscriptions) (as : List AccountId) :
    ∀ a ∈ s.tracks as, a.installs? settings = none := by
  induction as generalizing s with
  | nil => intro a ha; cases ha
  | cons account as ih =>
    intro a ha
    rw [tracks, List.mem_cons, List.mem_append] at ha
    rcases ha with rfl | ha | ha
    · rfl
    · split at ha
      · rw [List.mem_singleton.mp ha]; rfl
      · cases ha
    · exact ih _ a ha

/-- A turn that does not install has no action that does. -/
theorem turnActions_keeps {settings : Settings} {t : Turn} (h : t.installs settings = false) (s : Subscriptions) :
    ∀ a ∈ s.turnActions t, a.installs? settings = none := by
  have query (l : Ledger) (r : Request) : ∀ a ∈ (r.items l).map .arm ++ s.tracks (r.tracked l),
      a.installs? settings = none := by
    intro a ha
    rcases List.mem_append.mp ha with ha | ha
    · obtain ⟨item, -, rfl⟩ := List.mem_map.mp ha
      rfl
    · exact tracks_keeps settings s _ a ha
  cases t with
  | close => cases h
  | request l r =>
    cases r with
    | unsubscribeAll => cases h
    | subscribe callback notifyAll =>
      intro a ha
      rw [List.mem_singleton.mp ha, Action.installs?]
      simp only [Turn.installs, Bool.or_eq_false_iff, Bool.not_eq_false'] at h
      rw [h.1, h.2]
      rfl
    | subscribePending | subscribeBlocks | subscribeMarket | unsubscribeMarket =>
      intro a ha
      rw [List.mem_singleton.mp ha]
      rfl
    | getObjects | getAccounts | getFullAccounts | lookupAccounts | getAssets | getKeyReferences | getBalances =>
      exact query l _

/-- A turn that installs is one action. -/
theorem turnActions_installs {settings : Settings} {t : Turn} (h : t.installs settings = true) (s : Subscriptions) :
    ∃ a i, s.turnActions t = [a] ∧ a.installs? settings = some i := by
  cases t with
  | close => exact ⟨_, _, rfl, rfl⟩
  | request l r =>
    cases r with
    | unsubscribeAll => exact ⟨_, _, rfl, rfl⟩
    | subscribe callback notifyAll =>
      refine ⟨_, (some callback, notifyAll), rfl, ?_⟩
      simp only [Turn.installs] at h
      rw [Action.installs?, if_neg]
      cases notifyAll <;> simp_all
    | subscribePending | subscribeBlocks | subscribeMarket | unsubscribeMarket | getObjects | getAccounts
    | getFullAccounts | lookupAccounts | getAssets | getKeyReferences | getBalances => cases h

/-! ## A session's whole past -/

/-- All actions of a session, turn after turn. -/
def history (s : Subscriptions) : List Turn → List Action
  | [] => []
  | t :: turns => s.turnActions t ++ history (s.turn t) turns

theorem afterTurns_eq_after (s : Subscriptions) (turns : List Turn) : s.afterTurns turns = s.after (s.history turns) := by
  induction turns generalizing s with
  | nil => rfl
  | cons t turns ih =>
    rw [history, after_append, ← turn_eq_after]
    exact ih (s.turn t)

theorem history_snoc (s : Subscriptions) (turns : List Turn) (t : Turn) :
    s.history (turns ++ [t]) = s.history turns ++ (s.afterTurns turns).turnActions t := by
  induction turns generalizing s with
  | nil => rw [List.nil_append, history, history, history, List.append_nil, List.nil_append]; rfl
  | cons u turns ih =>
    rw [List.cons_append, history, ih, history, List.append_assoc]
    rfl

end Subscriptions

end LedgerWatch
