/-
  LedgerWatch.Proofs.Switchboard.Updates — the updates of a session, exactly.

  For any state of a node and of a session in it, a signal of changes hands over to the
  session one batch of updates, or none (`updates_exact`). Its items are the ids of the
  signal that are of interest, in the order of the signal and as often as they are there:
  of what is created or changed the records as the ledger has them then, of what is
  removed the ids alone. There is a batch as soon as there is an item and a callback.

  An id of interest that the ledger does not have is left out and counted. Removed ids
  are not looked up for this, so none of them is missing; but an order among them that
  has no last state as an order is counted where markets are asked for, as in every
  signal (`strays`).
-/

import LedgerWatch.Proofs.Session.Markets
import LedgerWatch.Proofs.Switchboard.Interest
import LedgerWatch.Proofs.Switchboard.Roster

namespace LedgerWatch.Switchboard

open Subscriptions

/-- A signal hands over to a session one batch of updates with these items, if there are any and it has a callback;
the ids of interest that are missing and the orders that go astray are counted. -/
structure HandsUpdates (b : Switchboard) (id : Nat) (s : Subscriptions) (sig : Signal) (items : List Json)
    (missing strays : Nat) : Prop where
  offered : updatesOf id (b.tell sig id).1 =
    match s.update with
    | none => []
    | some u => if items = [] then [] else [⟨id, .updates, u.callback, .arr items⟩]
  anomalies : (b.tell sig id).2.anomalies = b.anomalies + missing + strays

theorem anomalies_tell {b : Switchboard} {id : Nat} {s : Subscriptions} (hs : b.sessions.get? id = some s) {sig : Signal}
    {c : Change} (hc : s.notices b.ledger sig = s.changeNotices c) :
    (b.tell sig id).2.anomalies =
      b.anomalies + s.unresolved (told? c) (s.interesting c.force c.impacted c.ids) + s.strays c.resolve c.ids := by
  have hnotices : b.noticesFor sig id = s.changeNotices c := by
    unfold noticesFor
    rw [hs]
    exact hc
  rw [(tell_eq b sig id).1, hnotices, changeNotices_anomalies, Nat.add_assoc]

theorem handsUpdates_of_change {b : Switchboard} {id : Nat} {s : Subscriptions} (hs : b.sessions.get? id = some s)
    {sig : Signal} {c : Change} (hc : s.notices b.ledger sig = s.changeNotices c) :
    HandsUpdates b id s sig ((s.interesting c.force c.impacted c.ids).filterMap (told? c))
      (s.unresolved (told? c) (s.interesting c.force c.impacted c.ids)) (s.strays c.resolve c.ids) := by
  refine ⟨?_, anomalies_tell hs hc⟩
  rw [updatesOf_tell hs, hc, updates_of_change, tellable_eq]
  unfold updatesFor
  cases s.update with
  | none => rfl
  | some u =>
    unfold updateBatch
    dsimp only
    by_cases hitems : (s.interesting c.force c.impacted c.ids).filterMap (told? c) = []
    · rw [if_pos hitems, hitems]
      rfl
    · rw [if_neg hitems, if_neg (by rwa [List.isEmpty_iff])]
      rfl

/-- What is created or changed is told as the ledger has it. -/
theorem handsUpdates_live {b : Switchboard} {id : Nat} {s : Subscriptions} (hs : b.sessions.get? id = some s)
    {sig : Signal} {force : Bool} {ids : List ObjectId} {impacted : SortedSet AccountId}
    (hc : s.notices b.ledger sig = s.changeNotices ⟨force, ids, impacted, b.ledger.find?, true⟩) :
    let items := s.interesting force impacted ids
    HandsUpdates b id s sig (items.filterMap fun x => (b.ledger.find? x).map toJson) (s.unresolved b.ledger.find? items)
      (s.strays b.ledger.find? ids) := by
  have hhands := handsUpdates_of_change hs hc
  rwa [unresolved_whole s rfl] at hhands

/-- What a session is told of the ids that are of interest to it is exactly this: created and changed ones as records
of the ledger, removed ones as ids. -/
theorem updates_exact {b : Switchboard} {id : Nat} {s : Subscriptions} (hs : b.sessions.get? id = some s)
    (ids : List ObjectId) (impacted : SortedSet AccountId) (removed : List Record) :
    let forced := s.interesting s.notifyAll impacted ids
    let unforced := s.interesting false impacted ids
    let live (x : ObjectId) : Option Json := (b.ledger.find? x).map toJson
    HandsUpdates b id s (.created ids impacted) (forced.filterMap live)
        (s.unresolved b.ledger.find? forced) (s.strays b.ledger.find? ids) ∧
      HandsUpdates b id s (.changed ids impacted) (unforced.filterMap live)
        (s.unresolved b.ledger.find? unforced) (s.strays b.ledger.find? ids) ∧
      HandsUpdates b id s (.removed ids removed impacted) (forced.map fun x => .str x.text)
        0 (s.strays (lastWithId removed) ids) := by
  intro forced unforced live
  refine ⟨handsUpdates_live hs rfl, handsUpdates_live hs rfl, ?_⟩
  have hremoved : HandsUpdates b id s (.removed ids removed impacted) _ _ _ :=
    handsUpdates_of_change (c := ⟨s.notifyAll, ids, impacted, lastWithId removed, false⟩) hs rfl
  rw [unresolved_bare s rfl] at hremoved
  rwa [← List.filterMap_eq_map]

/-- Of ids that are all watched none is left out. -/
theorem interesting_of_watched {s : Subscriptions} {ids : List ObjectId} (h : ∀ x ∈ ids, s.watches (.object x) = true)
    (all : Bool) (impacted : SortedSet AccountId) : s.interesting all impacted ids = ids := by
  refine List.filter_eq_self.mpr ?_
  intro x hx
  rw [h x hx, Bool.or_true]

/-- An order that the ledger does not have. -/
def lost : ObjectId := Kind.limitOrder.id 9

/-- What is there and what is not are asked for alike. -/
def watcher : List Event :=
  [.insert (.account alice), .openSession, .request 1 (.subscribe ⟨"a", none⟩ false),
    .request 1 (.getObjects [alice.id, lost])]

/-- What is named twice is told twice, and what is lost is counted where it would have been told whole. -/
theorem updates_exact_of_repeated :
    ∃ b s, Switchboard.start .standard true = .ok b ∧ (b.run watcher).2.sessions.get? 1 = some s ∧
      let c := (b.run watcher).2
      let ids := [alice.id, lost, alice.id]
      HandsUpdates c 1 s (.changed ids .empty)
          [toJson (Record.account alice), toJson (Record.account alice)] 1 0 ∧
        HandsUpdates c 1 s (.removed ids [] .empty)
          [.str alice.id.text, .str lost.text, .str alice.id.text] 0 0 := by
  refine ⟨_, _, rfl, rfl, ?_⟩
  intro c ids
  obtain ⟨-, hchanged, hremoved⟩ := @updates_exact c 1 _ rfl ids .empty []
  have hwatched : ∀ s, c.sessions.get? 1 = some s → ∀ x ∈ ids, s.watches (.object x) = true := by
    intro s hs x hx
    refine armed_run (armed_nil 1 _) watcher s hs ?_ x ?_
    · cases hs
      rfl
    · revert x
      decide +kernel
  rw [interesting_of_watched (hwatched _ rfl)] at hchanged hremoved
  exact ⟨hchanged, hremoved⟩

end LedgerWatch.Switchboard
