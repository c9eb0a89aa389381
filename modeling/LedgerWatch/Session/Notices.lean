/-
  LedgerWatch.Session.Notices — what a session is told about the ledger.

  The ledger signals what was created, changed or removed, each block it applied and each
  transaction that is pending. For one session a signal comes to batches, in the order
  they are offered for delivery. A change is of interest to its update subscription when

      everything is (created and removed, if asked for)
      or a followed account is impacted
      or the filter contains the id

  and then stands in the one update batch of the signal: as the record it is now, or as
  its id if it was removed. Orders go to their market's subscription too, one batch for
  each market. An id that does not resolve is an anomaly; it is counted and left out.
-/

import LedgerWatch.Ledger
import LedgerWatch.MarketQueues
import LedgerWatch.Subscriptions
import LedgerWatch.Wire.Block

namespace LedgerWatch

inductive Signal where
  | created (ids : List ObjectId) (impacted : SortedSet AccountId)
  | changed (ids : List ObjectId) (impacted : SortedSet AccountId)
  /-- `removed` are the last states of the objects. -/
  | removed (ids : List ObjectId) (removed : List Record) (impacted : SortedSet AccountId)
  | blockApplied (block : Block)
  | pendingTransaction (transaction : Transaction)

/-- A set of changes to look at. -/
structure Change where
  /-- Whether all of it is of interest. -/
  force : Bool
  ids : List ObjectId
  impacted : SortedSet AccountId
  resolve : ObjectId → Option Record
  /-- Records are told whole, not by their ids. -/
  whole : Bool

structure Notices where
  batches : List Batch
  anomalies : Nat
  /-- The sizes of the sets of changes looked at. -/
  sizes : List Nat

namespace Notices

def none : Notices := ⟨[], 0, []⟩

end Notices

/-- The last of the records with an id. -/
def lastWithId (records : List Record) (id : ObjectId) : Option Record := records.reverse.find? (·.id = id)

theorem lastWithId_eq_some_iff {records : List Record} {id : ObjectId} {r : Record} :
    lastWithId records id = some r ↔
      r.id = id ∧ ∃ before after, records = before ++ r :: after ∧ ∀ r' ∈ after, r'.id ≠ id := by
  rw [lastWithId, List.find?_eq_some_iff_append, decide_eq_true_eq]
  refine and_congr_right fun _ => ?_
  -- the records after it come before it in the reversed list
  constructor
  · intro h
    obtain ⟨after, before, hreverse, hafter⟩ := h
    refine ⟨before.reverse, after.reverse, ?_, ?_⟩
    · rw [← List.reverse_reverse records, hreverse]
      simp
    · simpa using hafter
  · intro h
    obtain ⟨before, after, rfl, hafter⟩ := h
    refine ⟨after.reverse, before.reverse, ?_, ?_⟩
    · simp
    · simpa using hafter

namespace Subscriptions

def isOfInterest (s : Subscriptions) (c : Change) (id : ObjectId) : Bool :=
  c.force || s.meets c.impacted || s.watches (.object id)

/-- How a change of an object is told, if it resolves where it has to. -/
def told? (c : Change) (id : ObjectId) : Option Json :=
  if c.whole then (c.resolve id).map toJson else some (.str id.text)

def updateNotices (s : Subscriptions) (c : Change) : Notices :=
  match s.update with
  | none => .none
  | some u =>
    let ids := c.ids.filter (s.isOfInterest c)
    let items := ids.filterMap (told? c)
    { batches := if items.isEmpty then [] else [⟨.updates, u.callback, .arr items⟩]
      anomalies := ids.length - items.length
      sizes := [] }

def isOrder (id : ObjectId) : Bool := id.is .limitOrder || id.is .callOrder

theorem isOrder_iff {id : ObjectId} :
    isOrder id = true ↔ id = Kind.limitOrder.id id.number ∨ id = Kind.callOrder.id id.number := by
  rw [isOrder, Bool.or_eq_true, ObjectId.is_iff, ObjectId.is_iff]

/-- The market of an order that resolves to one, and the order. -/
def order? (c : Change) (id : ObjectId) : Option (Market × Record) :=
  (c.resolve id).bind fun r => r.market?.map fun m => (m, r)

/-- One batch for each market with a callback. -/
def marketBatches {α : Type} (s : Subscriptions) (q : MarketQueues α) (write : List α → Json) : List Batch :=
  q.batches.filterMap fun (m, items) =>
    (s.marketCallback? m).map fun callback => ⟨.market, callback, write items⟩

def marketNotices (s : Subscriptions) (c : Change) : Notices :=
  let ids := c.ids.filter isOrder
  let items := ids.filterMap fun id => (order? c id).bind fun (m, r) =>
    if (s.marketCallback? m).isNone then none
    else some (m, if c.whole then toJson r else Json.str id.text)
  { batches := s.marketBatches (.ofList items) .arr
    anomalies := ids.countP fun id => (order? c id).isNone
    sizes := [] }

def changeNotices (s : Subscriptions) (c : Change) : Notices :=
  if c.ids.isEmpty then .none
  else
    let updates := s.updateNotices c
    let markets := if s.hasMarkets then s.marketNotices c else .none
    ⟨updates.batches ++ markets.batches, updates.anomalies + markets.anomalies, [c.ids.length]⟩

def blockNotices (l : Ledger) (s : Subscriptions) (b : Block) : Notices :=
  let told := match s.block with
    | some callback => [⟨.blockApplied, callback, .str b.id.text⟩]
    | none => []
  let fills :=
    if s.hasMarkets then
      s.marketBatches (.ofFills l.applied fun m => (s.marketCallback? m).isSome) fun items =>
        .arr (items.map Fill.toJson)
    else []
  ⟨told ++ fills, 0, []⟩

def pendingNotices (s : Subscriptions) (t : Transaction) : Notices :=
  match s.pending with
  | some callback => ⟨[⟨.pendingTransactions, callback, toJson t⟩], 0, []⟩
  | none => .none

def notices (l : Ledger) (s : Subscriptions) : Signal → Notices
  | .created ids impacted => s.changeNotices ⟨s.notifyAll, ids, impacted, l.find?, true⟩
  | .changed ids impacted => s.changeNotices ⟨false, ids, impacted, l.find?, true⟩
  | .removed ids removed impacted => s.changeNotices ⟨s.notifyAll, ids, impacted, lastWithId removed, false⟩
  | .blockApplied block => blockNotices l s block
  | .pendingTransaction transaction => s.pendingNotices transaction

end Subscriptions

end LedgerWatch
