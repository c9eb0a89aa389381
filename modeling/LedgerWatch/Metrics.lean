/-
  LedgerWatch.Metrics — what a node counts.

  Deliveries are counted by stream: batches taken on, batches whose callback succeeded
  or failed, and batches dropped, by the reason. The batch-size histogram counts
  observations up to each of twelve bounds, the powers of two from 1 on.
-/

import LedgerWatch.Delivery.Batch

namespace LedgerWatch

inductive DropReason where
  | queueFull
  | poolStopped
  | sessionClosed
  deriving DecidableEq, Repr

namespace DropReason

def all : List DropReason := [.queueFull, .poolStopped, .sessionClosed]

def label : DropReason → String
  | .queueFull => "queue_full"
  | .poolStopped => "pool_stopped"
  | .sessionClosed => "session_closed"

def ofLabel? (s : String) : Option DropReason := all.find? (·.label = s)

end DropReason

/-- A count for each stream. -/
structure PerStream where
  updates : Nat
  market : Nat
  pendingTransactions : Nat
  blockApplied : Nat
  deriving DecidableEq, Repr

namespace PerStream

def zero : PerStream := ⟨0, 0, 0, 0⟩

def get (c : PerStream) : Stream → Nat
  | .updates => c.updates
  | .market => c.market
  | .pendingTransactions => c.pendingTransactions
  | .blockApplied => c.blockApplied

def bump (c : PerStream) : Stream → PerStream
  | .updates => { c with updates := c.updates + 1 }
  | .market => { c with market := c.market + 1 }
  | .pendingTransactions => { c with pendingTransactions := c.pendingTransactions + 1 }
  | .blockApplied => { c with blockApplied := c.blockApplied + 1 }

@[simp] theorem get_zero (s : Stream) : zero.get s = 0 := by cases s <;> rfl

@[simp] theorem get_bump (c : PerStream) (s t : Stream) :
    (c.bump s).get t = c.get t + if s = t then 1 else 0 := by
  cases s <;> cases t <;> rfl

end PerStream

structure DeliveryCounts where
  scheduled : PerStream
  delivered : PerStream
  failures : PerStream
  queueFull : PerStream
  poolStopped : PerStream
  sessionClosed : PerStream
  deriving DecidableEq, Repr

namespace DeliveryCounts

def zero : DeliveryCounts := ⟨.zero, .zero, .zero, .zero, .zero, .zero⟩

def dropped (c : DeliveryCounts) : DropReason → PerStream
  | .queueFull => c.queueFull
  | .poolStopped => c.poolStopped
  | .sessionClosed => c.sessionClosed

def schedule (c : DeliveryCounts) (s : Stream) : DeliveryCounts := { c with scheduled := c.scheduled.bump s }

def drop (c : DeliveryCounts) (s : Stream) : DropReason → DeliveryCounts
  | .queueFull => { c with queueFull := c.queueFull.bump s }
  | .poolStopped => { c with poolStopped := c.poolStopped.bump s }
  | .sessionClosed => { c with sessionClosed := c.sessionClosed.bump s }

def succeed (c : DeliveryCounts) (s : Stream) : DeliveryCounts := { c with delivered := c.delivered.bump s }

def fail (c : DeliveryCounts) (s : Stream) : DeliveryCounts := { c with failures := c.failures.bump s }

end DeliveryCounts

structure Histogram where
  /-- Observations up to each bound. -/
  buckets : List Nat
  count : Nat
  sum : Nat
  deriving DecidableEq, Repr

namespace Histogram

def bounds : List Nat := (List.range 12).map (Nat.pow 2)

def zero : Histogram := ⟨bounds.map fun _ => 0, 0, 0⟩

def observe (h : Histogram) (n : Nat) : Histogram :=
  ⟨List.zipWith (fun bound c => if n ≤ bound then c + 1 else c) bounds h.buckets, h.count + 1, h.sum + n⟩

end Histogram

structure Metrics where
  delivery : DeliveryCounts
  /-- Announced ids that did not resolve. -/
  anomalies : Nat
  /-- Items put into membership filters. -/
  itemsArmed : Nat
  batchSize : Histogram
  activeSessions : Nat
  deriving DecidableEq, Repr

def Metrics.zero : Metrics := ⟨.zero, 0, 0, .zero, 0⟩

end LedgerWatch
