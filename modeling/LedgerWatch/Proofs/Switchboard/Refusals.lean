/-
  LedgerWatch.Proofs.Switchboard.Refusals — what is refused, and that it leaves no trace.

  Whether a request is refused is a matter of the request and the settings, and of nothing
  that happened before (`Request.refusal?`): to ask for everything where that is disabled,
  for a market of one asset, and for too many names at once. Other requests are answered.

  A request that is refused leaves the node as it was, with its sessions, queues, ledger
  and counts (`step_refused`). So a run comes to the same without the requests that are
  refused in it (`run_without_refused`).
-/

import LedgerWatch.Proofs.Switchboard.Queries

namespace LedgerWatch

/-- What a request is refused for, if it is. -/
def Request.refusal? (settings : Settings) : Request → Option NotifyError
  | .subscribe _ notifyAll =>
    if notifyAll = true ∧ settings.subscribeToAll = false then some .subscribeToAllDisabled else none
  | .subscribeMarket _ a b | .unsubscribeMarket a b => if a = b then some (.sameAssetMarket a) else none
  | .lookupAccounts _ limit => if 1000 < limit then some (.limitExceeded limit 1000) else none
  | .unsubscribeAll | .subscribePending _ | .subscribeBlocks _ | .getObjects _ | .getAccounts _ | .getFullAccounts _ _
  | .getAssets _ | .getKeyReferences _ | .getBalances _ => none

namespace Subscriptions

/-! ## One request -/

theorem install_disabled {s : Subscriptions} (h : s.settings.subscribeToAll = false) (callback : Option Callback) :
    s.install callback true = .error .subscribeToAllDisabled := by
  simp only [install, h, Bool.not_false, Bool.and_self, if_true]

theorem install_enabled {s : Subscriptions} {notifyAll : Bool}
    (h : ¬(notifyAll = true ∧ s.settings.subscribeToAll = false)) (callback : Option Callback) :
    s.install callback notifyAll = .ok (s.reset callback notifyAll) := by
  refine if_neg ?_
  rwa [Bool.and_eq_true, Bool.not_eq_true']

/-- A request is refused for a reason, and changes nothing, or there is none and it is answered. -/
theorem serve_cases (l : Ledger) (s : Subscriptions) (r : Request) :
    (∃ e, r.refusal? s.settings = some e ∧ s.serve l r = (.refused e, s)) ∨
      r.refusal? s.settings = none ∧ ∀ e, (s.serve l r).1 ≠ .refused e := by
  cases r with
  | subscribe callback notifyAll =>
    by_cases h : notifyAll = true ∧ s.settings.subscribeToAll = false
    · obtain ⟨rfl, hdisabled⟩ := h
      refine .inl ⟨_, if_pos ⟨rfl, hdisabled⟩, ?_⟩
      simp only [serve, install_disabled hdisabled]
    · refine .inr ⟨if_neg h, fun e => ?_⟩
      simp only [serve, install_enabled h]
      exact Reply.noConfusion
  | subscribeMarket callback a b =>
    by_cases h : a = b
    · subst h
      refine .inl ⟨_, if_pos rfl, ?_⟩
      simp only [serve, subscribeMarket_same]
    · refine .inr ⟨if_neg h, fun e => ?_⟩
      simp only [serve, subscribeMarket_of_ne s callback h]
      exact Reply.noConfusion
  | unsubscribeMarket a b =>
    by_cases h : a = b
    · subst h
      refine .inl ⟨_, if_pos rfl, ?_⟩
      simp only [serve, unsubscribeMarket_same]
    · refine .inr ⟨if_neg h, fun e => ?_⟩
      simp only [serve, unsubscribeMarket_of_ne s h]
      exact Reply.noConfusion
  | lookupAccounts lower limit =>
    by_cases h : maxLookup < limit
    · refine .inl ⟨_, if_pos h, ?_⟩
      simp only [serve, lookupAccounts, if_pos h]
      rfl
    · refine .inr ⟨if_neg h, fun e => ?_⟩
      simp only [serve, lookupAccounts, if_neg h]
      exact Reply.noConfusion
  | unsubscribeAll | subscribePending | subscribeBlocks | getObjects | getAccounts | getFullAccounts | getAssets
  | getKeyReferences | getBalances => exact .inr ⟨rfl, fun e => Reply.noConfusion⟩

theorem refused_iff (l : Ledger) (s : Subscriptions) (r : Request) (e : NotifyError) :
    (s.serve l r).1 = .refused e ↔ r.refusal? s.settings = some e := by
  rcases serve_cases l s r with ⟨e', hrefusal, hserve⟩ | ⟨hnone, hanswered⟩
  · rw [hserve, hrefusal, Reply.refused.injEq, Option.some.injEq]
  · rw [hnone]
    exact ⟨fun h => absurd h (hanswered e), fun h => by contradiction⟩

theorem serve_snd_of_refusal (l : Ledger) {s : Subscriptions} {r : Request}
    (h : (r.refusal? s.settings).isSome = true) : (s.serve l r).2 = s := by
  rcases serve_cases l s r with ⟨e, -, hserve⟩ | ⟨hnone, -⟩
  · rw [hserve]
  · rw [hnone] at h
    contradiction

end Subscriptions

/-! ## A run -/

/-- A request that is refused, whichever session it is of. -/
def Event.isRefused (settings : Settings) : Event → Bool
  | .request _ r => (r.refusal? settings).isSome
  | .openSession | .drop _ | .close _ | .insert _ | .erase _ | .apply _ | .signal _ | .signalTo _ _ | .work _ _
  | .drain _ | .shutdown => false

namespace Switchboard

open Subscriptions

theorem step_refused {b : Switchboard} (h : Reached b) {e : Event} (he : e.isRefused b.settings = true) :
    (b.step e).2 = b := by
  cases e with
  | request id r =>
    cases hs : b.sessions.get? id with
    | none => simp only [step, hs]
    | some s =>
      have hunchanged : (s.serve b.ledger r).2 = s := by
        refine serve_snd_of_refusal b.ledger ?_
        rwa [settings_of_reached h hs]
      rw [step_request hs, hunchanged, SortedMap.insert_self hs, Nat.sub_self, Nat.add_zero]
  | openSession | drop | close | insert | erase | apply | signal | signalTo | work | drain | shutdown => contradiction

/-- What the events came to that are not refused. -/
def notRefused (settings : Settings) (es : List Event) (outs : List Out) : List Out :=
  ((es.zip outs).filter fun (e, _) => !e.isRefused settings).map (·.2)

theorem run_without_refused {b : Switchboard} (h : Reached b) (es : List Event) :
    b.run (es.filter fun e => !e.isRefused b.settings) = (notRefused b.settings es (b.run es).1, (b.run es).2) := by
  induction es generalizing b with
  | nil => rfl
  | cons e es ih =>
    have hrest := ih (reached_step b e h)
    rw [(world_step b e).1] at hrest
    cases he : e.isRefused b.settings with
    | true =>
      -- the rest of the run goes on from where it was
      rw [step_refused h he] at hrest
      simp only [run, notRefused, List.zip_cons_cons, List.filter_cons, he, Bool.not_true, step_refused h he]
      exact hrest
    | false =>
      simp only [run, notRefused, List.zip_cons_cons, List.filter_cons, he, Bool.not_false, if_true, hrest,
        List.map_cons]

/-- In every run a session is refused what is to be refused, and nothing else. The node is then what it was before, and
goes on as if nothing had been asked: without the requests that are refused all others come to the same. -/
theorem refusals_leave_no_trace {settings : Settings} {hasRuntime : Bool} {b : Switchboard}
    (h : Switchboard.start settings hasRuntime = .ok b) (es : List Event) :
    let c := (b.run es).2
    (∀ id s, c.sessions.get? id = some s → ∀ r e,
        (c.step (.request id r)).1 = .replied (.refused e) ↔ r.refusal? settings = some e) ∧
      (∀ id r e, (c.step (.request id r)).1 = .replied (.refused e) → (c.step (.request id r)).2 = c) ∧
      ∀ later, c.run (later.filter fun e => !e.isRefused settings) =
        (notRefused settings later (c.run later).1, (c.run later).2) := by
  intro c
  have hreached : Reached c := reached_run h es
  have hsettings : c.settings = settings := settings_run h es
  have hrefused : ∀ id s, c.sessions.get? id = some s → ∀ r e,
      (c.step (.request id r)).1 = .replied (.refused e) ↔ r.refusal? settings = some e := by
    intro id s hs r e
    rw [step_request hs, Out.replied.injEq, refused_iff, settings_of_reached hreached hs, hsettings]
  refine ⟨hrefused, ?_, hsettings ▸ run_without_refused hreached⟩
  intro id r e hreply
  refine step_refused hreached ?_
  cases hs : c.sessions.get? id with
  | none =>
    simp only [step, hs] at hreply
    contradiction
  | some s =>
    rw [hsettings, Event.isRefused, (hrefused id s hs r e).mp hreply]
    rfl

/-- Three requests to be refused, one of them from a session that is not held. -/
def threeRefused : List Event :=
  [.request 1 (.subscribe ⟨"b", none⟩ true), .request 1 (.unsubscribeMarket ⟨1⟩ ⟨2⟩),
    .request 2 (.lookupAccounts "" 1001), .request 1 (.subscribeMarket ⟨"b", none⟩ ⟨1⟩ ⟨1⟩),
    .request 1 (.lookupAccounts "" 1000)]

theorem refusals_leave_no_trace_of_three :
    ∃ b, Switchboard.start .standard true = .ok b ∧
      let c := (b.run oneSubscriber).2
      c.sessions.contains 1 = true ∧
        (c.step (.request 1 (.subscribe ⟨"b", none⟩ true))).1 = .replied (.refused .subscribeToAllDisabled) ∧
        (c.step (.request 1 (.subscribe ⟨"b", none⟩ true))).2 = c ∧
        (∀ e, (c.step (.request 1 (.unsubscribeMarket ⟨1⟩ ⟨2⟩))).1 ≠ .replied (.refused e)) ∧
        (c.run threeRefused).2 =
          (c.run [.request 1 (.unsubscribeMarket ⟨1⟩ ⟨2⟩), .request 1 (.lookupAccounts "" 1000)]).2 := by
  refine ⟨_, rfl, ?_⟩
  intro c
  obtain ⟨hrefused, hunchanged, hrun⟩ := @refusals_leave_no_trace .standard true _ rfl oneSubscriber
  have hdisabled : (c.step (.request 1 (.subscribe ⟨"b", none⟩ true))).1 =
      .replied (.refused .subscribeToAllDisabled) := (hrefused 1 _ rfl _ _).mpr rfl
  have hkept : threeRefused.filter (fun e => !e.isRefused .standard) =
      [.request 1 (.unsubscribeMarket ⟨1⟩ ⟨2⟩), .request 1 (.lookupAccounts "" 1000)] := rfl
  refine ⟨rfl, hdisabled, hunchanged 1 _ _ hdisabled, ?_, ?_⟩
  · intro e he
    have hnone := (hrefused 1 _ rfl _ _).mp he
    contradiction
  · rw [← hkept, hrun threeRefused]

end Switchboard

end LedgerWatch
