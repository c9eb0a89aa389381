/-
  LedgerWatch.Operation — what transactions do to the ledger.

  A fill is never asked for: the ledger reports one when an order is matched, in part or
  in whole.
-/

import LedgerWatch.Market

namespace LedgerWatch

inductive Operation where
  | transfer (fee : Amount) (sender recipient : AccountId) (amount : Amount)
  | limitOrderCreate (fee : Amount) (seller : AccountId) (sells receives : Amount) (expiration : UInt64)
      (fillOrKill : Bool)
  | limitOrderCancel (fee : Amount) (payer : AccountId) (order : ObjectId)
  | callOrderUpdate (fee : Amount) (account : AccountId) (collateral debt : Amount)
  | fillOrder (fee : Amount) (order : ObjectId) (account : AccountId) (pays receives : Amount)
  deriving DecidableEq

/-- What an operation left behind: nothing, an object it made, or an amount. -/
inductive Outcome where
  | void
  | object (id : ObjectId)
  | amount (a : Amount)
  deriving DecidableEq

namespace Operation

def feePayer : Operation → AccountId
  | .transfer _ sender _ _ => sender
  | .limitOrderCreate _ seller _ _ _ _ => seller
  | .limitOrderCancel _ payer _ => payer
  | .callOrderUpdate _ account _ _ => account
  | .fillOrder _ _ account _ _ => account

/-- The accounts whose balances or authorities it touches. -/
def impacted (op : Operation) : SortedSet AccountId :=
  let payer := SortedMap.empty.insert op.feePayer ()
  match op with
  | .transfer _ _ recipient _ => payer.insert recipient ()
  | _ => payer

/-- Where a fill took place. -/
def fillMarket? : Operation → Option Market
  | .fillOrder _ _ _ pays receives => some (.of pays.asset receives.asset)
  | _ => none

end Operation

end LedgerWatch
