/-
  LedgerWatch.Session.Reply — replies as documents.

  What was not found is null; what goes by name is an object.
-/

import LedgerWatch.Session.Requests
import LedgerWatch.Wire.Record

namespace LedgerWatch

def Json.ofOption {α : Type} [Wire α] : Option α → Json
  | some x => toJson x
  | none => .null

def FullAccount.toJson (f : FullAccount) : Json :=
  .obj [("account", LedgerWatch.toJson f.account), ("balances", LedgerWatch.toJson f.balances),
    ("limit_orders", LedgerWatch.toJson f.limitOrders), ("call_orders", LedgerWatch.toJson f.callOrders)]

/-- The answer to a request, if it was not refused. -/
def Reply.toJson : Reply → Except NotifyError Json
  | .done => .ok .null
  | .refused e => .error e
  | .objects found => .ok (.arr (found.map Json.ofOption))
  | .accounts found => .ok (.arr (found.map Json.ofOption))
  | .fullAccounts found => .ok (.obj (found.map fun (name, f) => (name, f.toJson)))
  | .names found => .ok (.obj (found.map fun (name, id) => (name, LedgerWatch.toJson id)))
  | .assets found => .ok (.arr (found.map Json.ofOption))
  | .references found => .ok (LedgerWatch.toJson found)
  | .balances found => .ok (LedgerWatch.toJson found)

end LedgerWatch
