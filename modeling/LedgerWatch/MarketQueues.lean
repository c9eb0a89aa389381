/-
  LedgerWatch.MarketQueues — items sorted out by market.

  Each market has a queue in the order its items came; the markets come in their own
  order. No queue is empty. `ofFills` sorts out the fills among applied operations.
-/

import LedgerWatch.Record
import LedgerWatch.Wire.Record

namespace LedgerWatch

structure MarketQueues (α : Type) where
  queues : SortedMap Market (List α)

namespace MarketQueues

variable {α : Type}

def empty : MarketQueues α := ⟨.empty⟩

def get? (q : MarketQueues α) (m : Market) : Option (List α) := q.queues.get? m

def push (q : MarketQueues α) (m : Market) (item : α) : MarketQueues α :=
  ⟨q.queues.insert m ((q.get? m).getD [] ++ [item])⟩

def size (q : MarketQueues α) : Nat := q.queues.size

def isEmpty (q : MarketQueues α) : Bool := q.queues.isEmpty

def batches (q : MarketQueues α) : List (Market × List α) := q.queues.entries

def ofList (items : List (Market × α)) : MarketQueues α := items.foldl (fun q (m, x) => q.push m x) empty

end MarketQueues

/-- A fill as it is delivered: the operation and what it left behind. -/
structure Fill where
  op : Operation
  outcome : Outcome
  deriving DecidableEq

def Fill.toJson (f : Fill) : Json := .arr [LedgerWatch.toJson f.op, LedgerWatch.toJson f.outcome]

/-- The market and the entry of a fill that is asked for; none for any other operation. -/
def AppliedOperation.fill? (wanted : Market → Bool) (o : AppliedOperation) : Option (Market × Fill) :=
  match o.op.fillMarket? with
  | none => none
  | some m => if m.isDegenerate || !wanted m then none else some (m, ⟨o.op, o.outcome⟩)

def MarketQueues.ofFills (applied : List AppliedOperation) (wanted : Market → Bool) : MarketQueues Fill :=
  .ofList (applied.filterMap (·.fill? wanted))

end LedgerWatch
