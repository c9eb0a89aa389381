/-
  LedgerWatch.Wire.Record — the wire form of operations and of what a ledger holds.

  An operation is an object with one entry, its name and its body. A record of a ledger
  is written as the object it is, with nothing to tell its sort; it is read as the first
  sort, in the order of `Record`, whose fields it has. For that it is taken in whole, so
  no part of it may be garbled or nested too deeply (`Json.isWhole`).
-/

import LedgerWatch.Wire
import LedgerWatch.Record

namespace LedgerWatch

namespace Operation

def name : Operation → String
  | .transfer .. => "transfer"
  | .limitOrderCreate .. => "limit_order_create"
  | .limitOrderCancel .. => "limit_order_cancel"
  | .callOrderUpdate .. => "call_order_update"
  | .fillOrder .. => "fill_order"

def body : Operation → List (String × Json)
  | .transfer fee sender recipient amount =>
    [("fee", toJson fee), ("from", toJson sender), ("to", toJson recipient), ("amount", toJson amount)]
  | .limitOrderCreate fee seller sells receives expiration fillOrKill =>
    [("fee", toJson fee), ("seller", toJson seller), ("amount_to_sell", toJson sells),
      ("min_to_receive", toJson receives), ("expiration", toJson expiration), ("fill_or_kill", toJson fillOrKill)]
  | .limitOrderCancel fee payer order =>
    [("fee", toJson fee), ("fee_paying_account", toJson payer), ("order", toJson order)]
  | .callOrderUpdate fee account collateral debt =>
    [("fee", toJson fee), ("funding_account", toJson account), ("delta_collateral", toJson collateral),
      ("delta_debt", toJson debt)]
  | .fillOrder fee order account pays receives =>
    [("fee", toJson fee), ("order_id", toJson order), ("account_id", toJson account), ("pays", toJson pays),
      ("receives", toJson receives)]

def transferOfJson? (src : Source) (j : Json) : Option Operation := do
  let [fee, sender, recipient, amount] ← j.fields? ["fee", "from", "to", "amount"] | none
  return .transfer (← ofJson? src fee) (← ofJson? src sender) (← ofJson? src recipient) (← ofJson? src amount)

def limitOrderCreateOfJson? (src : Source) (j : Json) : Option Operation := do
  let [fee, seller, sells, receives, expiration, fillOrKill] ←
    j.fields? ["fee", "seller", "amount_to_sell", "min_to_receive", "expiration", "fill_or_kill"] | none
  return .limitOrderCreate (← ofJson? src fee) (← ofJson? src seller) (← ofJson? src sells)
    (← ofJson? src receives) (← ofJson? src expiration) (← ofJson? src fillOrKill)

def limitOrderCancelOfJson? (src : Source) (j : Json) : Option Operation := do
  let [fee, payer, order] ← j.fields? ["fee", "fee_paying_account", "order"] | none
  return .limitOrderCancel (← ofJson? src fee) (← ofJson? src payer) (← ofJson? src order)

def callOrderUpdateOfJson? (src : Source) (j : Json) : Option Operation := do
  let [fee, account, collateral, debt] ←
    j.fields? ["fee", "funding_account", "delta_collateral", "delta_debt"] | none
  return .callOrderUpdate (← ofJson? src fee) (← ofJson? src account) (← ofJson? src collateral)
    (← ofJson? src debt)

def fillOrderOfJson? (src : Source) (j : Json) : Option Operation := do
  let [fee, order, account, pays, receives] ←
    j.fields? ["fee", "order_id", "account_id", "pays", "receives"] | none
  return .fillOrder (← ofJson? src fee) (← ofJson? src order) (← ofJson? src account) (← ofJson? src pays)
    (← ofJson? src receives)

/-- Whether a body may be read: an array may not, in a document held as a value. -/
def admits (src : Source) (body : Json) : Bool := !(src = .value && body.arr?.isSome)

end Operation

instance : Wire Operation where
  toJson op := .obj [(op.name, .obj op.body)]
  ofJson?
    | src, .obj [(name, body)] =>
      if !Operation.admits src body then none
      else if name = "transfer" then Operation.transferOfJson? src body
      else if name = "limit_order_create" then Operation.limitOrderCreateOfJson? src body
      else if name = "limit_order_cancel" then Operation.limitOrderCancelOfJson? src body
      else if name = "call_order_update" then Operation.callOrderUpdateOfJson? src body
      else if name = "fill_order" then Operation.fillOrderOfJson? src body
      else none
    | _, _ => none

instance : Wire Outcome where
  toJson
    | .void => .str "void"
    | .object id => .obj [("object_id", toJson id)]
    | .amount a => .obj [("asset", toJson a)]
  ofJson?
    | _, .str name => if name = "void" then some .void else none
    | src, .obj [(name, body)] =>
      if name = "void" then match body with
        | .null => some .void
        | _ => none
      else if name = "object_id" then (ofJson? src body).map .object
      else if name = "asset" then (ofJson? src body).map .amount
      else none
    | _, _ => none

instance : Wire Account where
  toJson o := .obj [("id", toJson o.id), ("name", toJson o.name), ("registrar", toJson o.registrar),
    ("owner_keys", toJson o.ownerKeys), ("active_keys", toJson o.activeKeys)]
  ofJson? src j := do
    let [id, name, registrar, ownerKeys, activeKeys] ←
      j.fields? ["id", "name", "registrar", "owner_keys", "active_keys"] | none
    return ⟨← ofJson? src id, ← ofJson? src name, ← ofJson? src registrar, ← ofJson? src ownerKeys,
      ← ofJson? src activeKeys⟩

instance : Wire Asset where
  toJson o := .obj [("id", toJson o.id), ("symbol", toJson o.symbol), ("precision", toJson o.precision),
    ("issuer", toJson o.issuer)]
  ofJson? src j := do
    let [id, symbol, precision, issuer] ← j.fields? ["id", "symbol", "precision", "issuer"] | none
    return ⟨← ofJson? src id, ← ofJson? src symbol, ← ofJson? src precision, ← ofJson? src issuer⟩

instance : Wire LimitOrder where
  toJson o := .obj [("id", toJson o.id), ("expiration", toJson o.expiration), ("seller", toJson o.seller),
    ("for_sale", toJson o.forSale), ("sell_price", toJson o.sellPrice)]
  ofJson? src j := do
    let [id, expiration, seller, forSale, sellPrice] ←
      j.fields? ["id", "expiration", "seller", "for_sale", "sell_price"] | none
    return ⟨← ofJson? src id, ← ofJson? src expiration, ← ofJson? src seller, ← ofJson? src forSale,
      ← ofJson? src sellPrice⟩

instance : Wire CallOrder where
  toJson o := .obj [("id", toJson o.id), ("borrower", toJson o.borrower), ("collateral", toJson o.collateral),
    ("debt", toJson o.debt), ("call_price", toJson o.callPrice)]
  ofJson? src j := do
    let [id, borrower, collateral, debt, callPrice] ←
      j.fields? ["id", "borrower", "collateral", "debt", "call_price"] | none
    return ⟨← ofJson? src id, ← ofJson? src borrower, ← ofJson? src collateral, ← ofJson? src debt,
      ← ofJson? src callPrice⟩

instance : Wire AccountBalance where
  toJson o := .obj [("id", toJson o.id), ("owner", toJson o.owner), ("asset_type", toJson o.asset),
    ("balance", toJson o.balance)]
  ofJson? src j := do
    let [id, owner, asset, balance] ← j.fields? ["id", "owner", "asset_type", "balance"] | none
    return ⟨← ofJson? src id, ← ofJson? src owner, ← ofJson? src asset, ← ofJson? src balance⟩

instance : Wire AddressBalance where
  toJson o := .obj [("id", toJson o.id), ("owner", toJson o.owner), ("balance", toJson o.balance)]
  ofJson? src j := do
    let [id, owner, balance] ← j.fields? ["id", "owner", "balance"] | none
    return ⟨← ofJson? src id, ← ofJson? src owner, ← ofJson? src balance⟩

instance : Wire AppliedOperation where
  toJson o := .obj [("id", toJson o.id), ("op", toJson o.op), ("result", toJson o.outcome),
    ("block_num", toJson o.blockNumber), ("trx_in_block", toJson o.transaction), ("op_in_trx", toJson o.position),
    ("virtual_op", toJson o.virtualOp)]
  ofJson? src j := do
    let [id, op, outcome, blockNumber, transaction, position, virtualOp] ←
      j.fields? ["id", "op", "result", "block_num", "trx_in_block", "op_in_trx", "virtual_op"] | none
    return ⟨← ofJson? src id, ← ofJson? src op, ← ofJson? src outcome, ← ofJson? src blockNumber,
      ← ofJson? src transaction, ← ofJson? src position, ← ofJson? src virtualOp⟩

instance : Wire HistoryLink where
  toJson o := .obj [("id", toJson o.id), ("account", toJson o.account), ("operation_id", toJson o.operation),
    ("sequence", toJson o.sequence)]
  ofJson? src j := do
    let [id, account, operation, sequence] ← j.fields? ["id", "account", "operation_id", "sequence"] | none
    return ⟨← ofJson? src id, ← ofJson? src account, ← ofJson? src operation, ← ofJson? src sequence⟩

namespace Record

def firstSort? (j : Json) : Option Record :=
  (ofJson? .text j).map .account
    <|> (ofJson? .text j).map .asset
    <|> (ofJson? .text j).map .limitOrder
    <|> (ofJson? .text j).map .callOrder
    <|> (ofJson? .text j).map .accountBalance
    <|> (ofJson? .text j).map .addressBalance
    <|> (ofJson? .text j).map .operation
    <|> (ofJson? .text j).map .link

end Record

instance : Wire Record where
  toJson
    | .account o => toJson o
    | .asset o => toJson o
    | .limitOrder o => toJson o
    | .callOrder o => toJson o
    | .accountBalance o => toJson o
    | .addressBalance o => toJson o
    | .operation o => toJson o
    | .link o => toJson o
  ofJson? _ j := if j.isWhole then Record.firstSort? j else none

end LedgerWatch
