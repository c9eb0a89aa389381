/-
  LedgerWatch.Delivery.Batch — what is handed to a subscriber.

  A subscriber gives a callback for each of four streams; on the market stream, one for
  each market. A batch is one call of a callback with its payload.
-/

import LedgerWatch.Error
import LedgerWatch.Json

namespace LedgerWatch

inductive Stream where
  | updates
  | market
  | pendingTransactions
  | blockApplied
  deriving DecidableEq, Repr

namespace Stream

def all : List Stream := [.updates, .market, .pendingTransactions, .blockApplied]

def label : Stream → String
  | .updates => "updates"
  | .market => "market"
  | .pendingTransactions => "pending_tx"
  | .blockApplied => "block_applied"

def ofLabel? (s : String) : Option Stream := all.find? (·.label = s)

end Stream

/-- Known by its label; `failure` is what its transport reports on every call, if it fails. -/
structure Callback where
  label : String
  failure : Option DeliveryError
  deriving DecidableEq

structure Batch where
  stream : Stream
  callback : Callback
  payload : Json

end LedgerWatch
