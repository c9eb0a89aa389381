/-
  LedgerWatch.Proofs.Switchboard.Queries — what a query answers, and what it leaves behind.

  A query changes one session and the count of items armed, and nothing else. The session
  has its items armed and accounts followed, in this order and no others, and both counts
  grow by as many items, or not at all without a callback (`queries_arm_exactly`).

  The answer for full accounts is a matter of the ledger: it is the same for every
  session, whoever is followed and whether or not there is a callback. Accounts asked for
  to subscribe are taken in while there is room, the first new ones and each once
  (`takesIn`), and those that are followed then are watched (`full_accounts_exact`).
-/

import LedgerWatch.Proofs.Session.Enlisted
import LedgerWatch.Proofs.Session.FullAccounts
import LedgerWatch.Proofs.Switchboard.Holdings
import LedgerWatch.Proofs.Switchboard.Markets

namespace LedgerWatch

namespace Subscriptions

/-! ## Accounts asked for -/

/-- What asking for accounts makes of a session: of the new ones it follows the first, each once, for which there is
room, and with a callback all those asked for and followed are watched. -/
structure TakesIn (s s' : Subscriptions) (asked : List AccountId) : Prop where
  followed : ∀ a, s'.followed.contains a = true ↔ s.followed.contains a = true ∨ a ∈ s.newcomers asked
  size : s'.followed.size = s.followed.size + (s.newcomers asked).length
  capped : s'.followed.size ≤ s.settings.maxFollowed
  watched : s.isSubscribed = true → ∀ a ∈ asked, s'.followed.contains a = true → s'.watches (.account a) = true

theorem takesIn {s : Subscriptions} (h : s.followed.size ≤ s.settings.maxFollowed) (asked : List AccountId) :
    TakesIn s (asked.foldl track s) asked := by
  rw [foldl_track]
  have hsize := size_enlisted (fun a ha => (mem_newcomers ha).2) (nodup_newcomers s asked)
    ((asked.filter (s.admits asked)).map .account)
  refine ⟨contains_enlisted s _ _, hsize, ?_, ?_⟩
  · have hroom := length_newcomers_le s asked
    omega
  · intro hs a ha hfollowed
    have hadmitted : s.admits asked a = true := (admits_iff s asked a _).mpr hfollowed
    exact watches_enlisted hs (.inl (List.mem_map_of_mem (List.mem_filter.mpr ⟨ha, hadmitted⟩))) _

theorem serve_getFullAccounts_snd (l : Ledger) (s : Subscriptions) (keys : List String) (subscribe : Bool) :
    (s.serve l (.getFullAccounts keys subscribe)).2 = if subscribe then (l.resolved keys).foldl track s else s := by
  simp only [serve, getFullAccounts, resolved_eq]

end Subscriptions

namespace Switchboard

open Subscriptions

theorem step_request {b : Switchboard} {id : Nat} {s : Subscriptions} (hs : b.sessions.get? id = some s) (r : Request) :
    b.step (.request id r) = (.replied (s.serve b.ledger r).1,
      { b with
        sessions := b.sessions.insert id (s.serve b.ledger r).2
        itemsArmed := b.itemsArmed + ((s.serve b.ledger r).2.armed - s.armed) }) := by
  simp only [step, hs, serve]

/-! ## What a query arms -/

/-- A query changes nothing but its own session and the count of items armed: the session has the items of the query
armed and its accounts followed, and is otherwise as it was. -/
theorem queries_arm_exactly {b : Switchboard} {id : Nat} {s : Subscriptions} (hs : b.sessions.get? id = some s)
    {q : Request} (hq : q.isQuery = true) :
    let reply := (s.serve b.ledger q).1
    let items := q.arms b.ledger s reply
    let s' := s.enlisted items (q.enlists b.ledger s)
    b.step (.request id q) = (.replied reply,
        { b with sessions := b.sessions.insert id s', itemsArmed := b.itemsArmed + s.counted items }) ∧
      s'.armed = s.armed + s.counted items ∧
      (s.isSubscribed = true → ∀ item ∈ items, s'.watches item = true) ∧
      (∀ a, s'.followed.contains a = true ↔ s.followed.contains a = true ∨ a ∈ q.enlists b.ledger s) ∧
      ∀ keys, q = .getFullAccounts keys true →
        items = ((b.ledger.resolved keys).filter s'.followed.contains).map .account := by
  intro reply items s'
  have hserve : (s.serve b.ledger q).2 = s' := serve_query b.ledger s hq
  have harmed : s'.armed = s.armed + s.counted items := armed_enlisted s items _
  have hfollowed : ∀ a, s'.followed.contains a = true ↔ s.followed.contains a = true ∨ a ∈ q.enlists b.ledger s :=
    contains_enlisted s items _
  refine ⟨?_, harmed, fun hsub item hitem => watches_enlisted hsub (.inl hitem) _, hfollowed, ?_⟩
  · have hcount : b.itemsArmed + (s'.armed - s.armed) = b.itemsArmed + s.counted items := by omega
    rw [step_request hs, hserve, hcount]
  · rintro keys rfl
    have hadmits : s.admits (b.ledger.resolved keys) = s'.followed.contains := by
      funext a
      exact Bool.eq_iff_iff.mpr (admits_iff s _ a items)
    show ((b.ledger.resolved keys).filter (s.admits _)).map _ = _
    rw [hadmits]

def bob : Account := ⟨Kind.account.id 6, "bob", ⟨0⟩, [], []⟩

def roomForOne : Settings := { Settings.standard with maxFollowed := 1 }

/-- A subscriber, and two accounts of which he may follow one. -/
def twoAccounts : List Event :=
  [.insert (.account alice), .insert (.accountBalance (coins 7)), .insert (.account bob), .openSession,
    .request 1 (.subscribe ⟨"a", none⟩ false)]

/-- The one he asks for twice, by its name and by its id. -/
def askBoth : List String := ["bob", "alice", "1.2.6", "carol"]

theorem newcomers_of_full {s : Subscriptions} (hsettings : s.settings = roomForOne) (hnobody : s.followed = .empty) :
    s.newcomers [bob.accountId, alice.accountId, bob.accountId] = [bob.accountId] := by
  rw [newcomers, hsettings, hnobody]
  decide +kernel

/-- It is followed once and armed twice, and then there is no room for the other. -/
theorem queries_arm_exactly_of_full :
    ∃ b s s', Switchboard.start roomForOne true = .ok b ∧ (b.run twoAccounts).2.sessions.get? 1 = some s ∧
      (Request.getFullAccounts askBoth true).isQuery = true ∧
      let c := ((b.run twoAccounts).2.step (.request 1 (.getFullAccounts askBoth true))).2
      c.sessions.get? 1 = some s' ∧ c.itemsArmed = 2 ∧ s'.armed = s.armed + 2 ∧
        s'.watches (.account bob.accountId) = true ∧ s'.followed.contains bob.accountId = true ∧
        s'.followed.contains alice.accountId = false := by
  obtain ⟨b, hb⟩ : ∃ b, Switchboard.start roomForOne true = .ok b := ⟨_, rfl⟩
  obtain ⟨s, hs, hsub, hsettings, hnobody⟩ : ∃ s, (b.run twoAccounts).2.sessions.get? 1 = some s ∧
      s.isSubscribed = true ∧ s.settings = roomForOne ∧ s.followed = .empty := by
    cases hb
    exact ⟨_, rfl, rfl, rfl, rfl⟩
  have hasked : (b.run twoAccounts).2.ledger.resolved askBoth = [bob.accountId, alice.accountId, bob.accountId] := by
    cases hb
    decide +kernel
  have hnone : (b.run twoAccounts).2.itemsArmed = 0 := by
    cases hb
    rfl
  have hnew := newcomers_of_full hsettings hnobody
  have henlists : (Request.getFullAccounts askBoth true).enlists (b.run twoAccounts).2.ledger s = [bob.accountId] := by
    rw [Request.enlists, hasked, hnew]
  have harms (reply : Reply) : (Request.getFullAccounts askBoth true).arms (b.run twoAccounts).2.ledger s reply =
      [.account bob.accountId, .account bob.accountId] := by
    rw [Request.arms, hasked]
    unfold admits
    rw [hnew, hnobody]
    decide +kernel
  have hcounted : s.counted [.account bob.accountId, .account bob.accountId] = 2 := if_pos hsub
  obtain ⟨hstep, harmed, hwatched, hfollowed, -⟩ :=
    queries_arm_exactly hs (show (Request.getFullAccounts askBoth true).isQuery = true from rfl)
  rw [harms, henlists] at hstep harmed hwatched hfollowed
  rw [hcounted] at hstep harmed
  refine ⟨b, s, s.enlisted _ _, hb, hs, rfl, ?_, ?_, harmed, hwatched hsub _ List.mem_cons_self, ?_, ?_⟩
  · rw [hstep]
    exact (SortedMap.get?_insert _ 1 1 _).trans (if_pos rfl)
  · rw [hstep, hnone]
  · exact (hfollowed _).mpr (.inr List.mem_cons_self)
  · rw [Bool.eq_false_iff, ne_eq, hfollowed, hnobody]
    decide +kernel

/-! ## Full accounts -/

section

variable {settings : Settings} {hasRuntime : Bool} {b : Switchboard} (h : Switchboard.start settings hasRuntime = .ok b)
  (es : List Event)

include h

theorem keyed_run : (b.run es).2.ledger.Keyed := by
  obtain ⟨p, -, rfl⟩ := start_ok h
  rw [ledger_run]
  exact Ledger.keyed_after _

/-- A session never follows more accounts than the node allows. -/
theorem capped_run {id : Nat} {s : Subscriptions} (hs : (b.run es).2.sessions.get? id = some s) :
    s.settings = settings ∧ s.followed.size ≤ settings.maxFollowed := by
  obtain ⟨acts, rfl⟩ := reached_run h es id s hs
  rw [settings_run h es, (follows_after settings acts).1]
  exact ⟨settings_after _ _, List.length_take_le _ _⟩

/-- Asked for full accounts a session of any run is answered with exactly those the texts stand for, the same whoever
asks and whether or not it is to subscribe; only then are accounts taken in, as far as the settings allow. -/
theorem full_accounts_exact {id : Nat} {s : Subscriptions} (hs : (b.run es).2.sessions.get? id = some s)
    (keys : List String) (subscribe : Bool) :
    let c := (b.run es).2
    let c' := (c.step (.request id (.getFullAccounts keys subscribe))).2
    ∃ found s', c.step (.request id (.getFullAccounts keys subscribe)) = (.replied (.fullAccounts found), c') ∧
      c'.sessions.get? id = some s' ∧
      FullAnswer c.ledger.find? keys found ∧
      (∀ (t : Subscriptions) (again : Bool), (t.serve c.ledger (.getFullAccounts keys again)).1 = .fullAccounts found) ∧
      (∀ key a, c.ledger.resolve? key = some a ↔ StandsFor c.ledger.find? key a) ∧
      s.settings = settings ∧ (subscribe = true → TakesIn s s' (c.ledger.resolved keys)) ∧
      (subscribe = false → s' = s) := by
  intro c c'
  have hkeyed : c.ledger.Keyed := keyed_run h es
  obtain ⟨hsettings, hcapped⟩ := capped_run h es hs
  have hfound := fun (t : Subscriptions) again => serve_getFullAccounts c.ledger t keys again
  refine ⟨c.ledger.fullAccounts keys, (s.serve c.ledger (.getFullAccounts keys subscribe)).2, ?_, ?_,
    fullAnswer hkeyed keys, hfound, fun key a => resolve?_eq_some_iff hkeyed, hsettings, ?_, ?_⟩
  · refine Prod.ext ?_ rfl
    rw [step_request hs, hfound]
  · show (c.step _).2.sessions.get? id = _
    rw [step_request hs]
    exact (SortedMap.get?_insert c.sessions id id _).trans (if_pos rfl)
  · rintro rfl
    rw [serve_getFullAccounts_snd, if_pos rfl]
    exact takesIn (hsettings ▸ hcapped) _
  · rintro rfl
    rw [serve_getFullAccounts_snd, if_neg Bool.false_ne_true]

end

/-- Both are answered with what is theirs, but only the one asked for first is followed. -/
theorem full_accounts_exact_of_full :
    ∃ b s found s', Switchboard.start roomForOne true = .ok b ∧ (b.run twoAccounts).2.sessions.get? 1 = some s ∧
      let (out, c) := (b.run twoAccounts).2.step (.request 1 (.getFullAccounts askBoth true))
      out = .replied (.fullAccounts found) ∧ c.sessions.get? 1 = some s' ∧
        ("1.2.6", ⟨bob, [], [], []⟩) ∈ found ∧ ("alice", ⟨alice, [coins 7], [], []⟩) ∈ found ∧ "carol" ∉ found.names ∧
        s'.followed.size = 1 ∧ s'.followed.contains bob.accountId = true := by
  obtain ⟨b, hb⟩ : ∃ b, Switchboard.start roomForOne true = .ok b := ⟨_, rfl⟩
  obtain ⟨s, hs, hnobody⟩ : ∃ s, (b.run twoAccounts).2.sessions.get? 1 = some s ∧ s.followed = .empty := by
    cases hb
    exact ⟨_, rfl, rfl⟩
  obtain ⟨found, s', hstep, hs', hfound, -, hstands, hsettings, hsubscribe, -⟩ :=
    full_accounts_exact hb twoAccounts hs askBoth true
  have htakes := hsubscribe rfl
  have hkeyed := keyed_run hb twoAccounts
  obtain ⟨hbob, hbobs, halice, halices, hcarol, hasked⟩ :
      let l := (b.run twoAccounts).2.ledger
      l.resolve? "1.2.6" = some bob ∧ l.fullAccount bob = ⟨bob, [], [], []⟩ ∧ l.resolve? "alice" = some alice ∧
        l.fullAccount alice = ⟨alice, [coins 7], [], []⟩ ∧ l.resolve? "carol" = none ∧
        l.resolved askBoth = [bob.accountId, alice.accountId, bob.accountId] := by
    cases hb
    decide +kernel
  have hnew := newcomers_of_full hsettings hnobody
  rw [hasked] at htakes
  refine ⟨b, s, found, s', hb, hs, congrArg Prod.fst hstep, hs', ?_, ?_, ?_, ?_, ?_⟩
  · exact (hfound.exact _ _).mpr ⟨by decide, bob, (hstands _ _).mp hbob, (complete_iff hkeyed bob _).mpr hbobs.symm⟩
  · exact (hfound.exact _ _).mpr ⟨by decide, alice, (hstands _ _).mp halice, (complete_iff hkeyed alice _).mpr halices.symm⟩
  · intro hin
    obtain ⟨-, a, ha⟩ := (hfound.answered "carol").mp hin
    rw [← hstands, hcarol] at ha
    contradiction
  · rw [htakes.size, hnew, hnobody]
    rfl
  · refine (htakes.followed _).mpr (.inr ?_)
    rw [hnew]
    exact List.mem_cons_self

end Switchboard

end LedgerWatch
