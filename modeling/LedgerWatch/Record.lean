/-
  LedgerWatch.Record — the objects a ledger holds.

  Every object has its id in it. A record is one object of any of the eight sorts, and
  its sort goes by its fields, not by the kind of its id, which may be any.
-/

import LedgerWatch.Key
import LedgerWatch.Operation

namespace LedgerWatch

structure Account where
  id : ObjectId
  name : String
  registrar : AccountId
  ownerKeys : List PublicKey
  activeKeys : List PublicKey
  deriving DecidableEq

structure Asset where
  id : ObjectId
  symbol : String
  precision : UInt8
  issuer : AccountId
  deriving DecidableEq

/-- A standing offer to sell. -/
structure LimitOrder where
  id : ObjectId
  expiration : UInt64
  seller : AccountId
  forSale : Int64
  sellPrice : Price
  deriving DecidableEq

/-- A debt with its collateral. -/
structure CallOrder where
  id : ObjectId
  borrower : AccountId
  collateral : Int64
  debt : Int64
  callPrice : Price
  deriving DecidableEq

structure AccountBalance where
  id : ObjectId
  owner : AccountId
  asset : AssetId
  balance : Int64
  deriving DecidableEq

/-- A balance that belongs to an address and is not claimed yet. -/
structure AddressBalance where
  id : ObjectId
  owner : Address
  balance : Amount
  deriving DecidableEq

/-- An operation as it was applied, with its place in the chain. -/
structure AppliedOperation where
  id : ObjectId
  op : Operation
  outcome : Outcome
  blockNumber : UInt32
  transaction : UInt16
  position : UInt16
  virtualOp : UInt16
  deriving DecidableEq

/-- A link in the chain of an account's operations. -/
structure HistoryLink where
  id : ObjectId
  account : AccountId
  operation : ObjectId
  sequence : UInt32
  deriving DecidableEq

/-- The account id, by the number alone. -/
def Account.accountId (a : Account) : AccountId := ⟨a.id.number⟩

def Account.keys (a : Account) : List PublicKey := a.ownerKeys ++ a.activeKeys

inductive Record where
  | account (o : Account)
  | asset (o : Asset)
  | limitOrder (o : LimitOrder)
  | callOrder (o : CallOrder)
  | accountBalance (o : AccountBalance)
  | addressBalance (o : AddressBalance)
  | operation (o : AppliedOperation)
  | link (o : HistoryLink)
  deriving DecidableEq

namespace Record

def id : Record → ObjectId
  | .account o => o.id
  | .asset o => o.id
  | .limitOrder o => o.id
  | .callOrder o => o.id
  | .accountBalance o => o.id
  | .addressBalance o => o.id
  | .operation o => o.id
  | .link o => o.id

/-- The market an order stands in. -/
def market? : Record → Option Market
  | .limitOrder o => some o.sellPrice.market
  | .callOrder o => some o.callPrice.market
  | _ => none

def kind? (r : Record) : Option Kind := r.id.kind?

/-- The sort of object this is, as the kind its id usually has. -/
def sort : Record → Kind
  | .account _ => .account
  | .asset _ => .asset
  | .limitOrder _ => .limitOrder
  | .callOrder _ => .callOrder
  | .accountBalance _ => .accountBalance
  | .addressBalance _ => .balance
  | .operation _ => .operation
  | .link _ => .accountHistory

def account? : Record → Option Account
  | .account o => some o
  | _ => none

def asset? : Record → Option Asset
  | .asset o => some o
  | _ => none

def limitOrder? : Record → Option LimitOrder
  | .limitOrder o => some o
  | _ => none

def callOrder? : Record → Option CallOrder
  | .callOrder o => some o
  | _ => none

def accountBalance? : Record → Option AccountBalance
  | .accountBalance o => some o
  | _ => none

def addressBalance? : Record → Option AddressBalance
  | .addressBalance o => some o
  | _ => none

end Record

end LedgerWatch
