/-
  LedgerWatch.Proofs.Wire.Record — operations, the objects of a ledger and blocks read back.

  An operation is read by its name, and its body is an object, so it may be read however
  it is held. A record of a ledger has nothing to tell its sort. That it reads back as
  the sort it is comes down to one name for each sort but the last: a sort is not read
  from an object without that name (`Requires`), and no later sort writes it.
-/

import LedgerWatch.Wire.Block
import LedgerWatch.Proofs.Wire.Lawful

namespace LedgerWatch

open Json (Order Plain arranged)

/-! ## Operations -/

namespace Operation

theorem plain_body (op : Operation) : Plain (.obj op.body) := by
  cases op <;> exact plain_record (by simp [body]) (by simp [body, LawfulWire.plain])

theorem reads_body {order : Order} (h : order.Permutes) (src : Source) (op : Operation) :
    ofJson? src (.obj [(op.name, arranged order (.obj op.body))]) = some op := by
  have hadmits : ∀ es, admits src (arranged order (.obj es)) = true := by
    intro es
    simp [admits, Json.arranged_obj, Json.arr?]
  cases op with
  | transfer fee sender recipient amount =>
    have hbody : transferOfJson? src (arranged order (.obj (transfer fee sender recipient amount).body))
        = some (.transfer fee sender recipient amount) :=
      reads_record h [toJson fee, toJson sender, toJson recipient, toJson amount] (by decide) rfl
        (by simp [LawfulWire.reads h])
    simp [ofJson?, name, hadmits, hbody]
  | limitOrderCreate fee seller sells receives expiration fillOrKill =>
    have hbody : limitOrderCreateOfJson? src
        (arranged order (.obj (limitOrderCreate fee seller sells receives expiration fillOrKill).body))
        = some (.limitOrderCreate fee seller sells receives expiration fillOrKill) :=
      reads_record h [toJson fee, toJson seller, toJson sells, toJson receives, toJson expiration, toJson fillOrKill]
        (by decide) rfl (by simp [LawfulWire.reads h])
    simp [ofJson?, name, hadmits, hbody]
  | limitOrderCancel fee payer id =>
    have hbody : limitOrderCancelOfJson? src (arranged order (.obj (limitOrderCancel fee payer id).body))
        = some (.limitOrderCancel fee payer id) :=
      reads_record h [toJson fee, toJson payer, toJson id] (by decide) rfl (by simp [LawfulWire.reads h])
    simp [ofJson?, name, hadmits, hbody]
  | callOrderUpdate fee account collateral debt =>
    have hbody : callOrderUpdateOfJson? src
        (arranged order (.obj (callOrderUpdate fee account collateral debt).body))
        = some (.callOrderUpdate fee account collateral debt) :=
      reads_record h [toJson fee, toJson account, toJson collateral, toJson debt] (by decide) rfl
        (by simp [LawfulWire.reads h])
    simp [ofJson?, name, hadmits, hbody]
  | fillOrder fee id account pays receives =>
    have hbody : fillOrderOfJson? src (arranged order (.obj (fillOrder fee id account pays receives).body))
        = some (.fillOrder fee id account pays receives) :=
      reads_record h [toJson fee, toJson id, toJson account, toJson pays, toJson receives] (by decide) rfl
        (by simp [LawfulWire.reads h])
    simp [ofJson?, name, hadmits, hbody]

end Operation

instance : LawfulWire Operation where
  plain op := plain_record (by simp) (by simpa using op.plain_body)
  reads h src op := by
    show ofJson? src (arranged _ (.obj [(op.name, .obj op.body)])) = some op
    rw [Json.arranged_single h]
    exact op.reads_body h src

instance : LawfulWire Outcome where
  plain o := by
    cases o with
    | void => trivial
    | object id => exact plain_record (by simp) (by simp [LawfulWire.plain])
    | amount a => exact plain_record (by simp) (by simp [LawfulWire.plain])
  reads {order} h src o := by
    cases o with
    | void => rfl
    | object id =>
      show ofJson? src (arranged order (.obj [("object_id", toJson id)])) = some (Outcome.object id)
      rw [Json.arranged_single h]
      refine (if_neg (by decide)).trans ((if_pos rfl).trans ?_)
      rw [LawfulWire.reads h, Option.map_some]
    | amount a =>
      show ofJson? src (arranged order (.obj [("asset", toJson a)])) = some (Outcome.amount a)
      rw [Json.arranged_single h]
      refine (if_neg (by decide)).trans ((if_neg (by decide)).trans ((if_pos rfl).trans ?_))
      rw [LawfulWire.reads h, Option.map_some]

/-! ## The objects of a ledger -/

instance : LawfulWire Account where
  plain _ := plain_record (by simp) (by simp [LawfulWire.plain])
  reads h _ o := reads_record h [toJson o.id, toJson o.name, toJson o.registrar, toJson o.ownerKeys,
    toJson o.activeKeys] (by decide) rfl (by simp [LawfulWire.reads h])

instance : LawfulWire Asset where
  plain _ := plain_record (by simp) (by simp [LawfulWire.plain])
  reads h _ o := reads_record h [toJson o.id, toJson o.symbol, toJson o.precision, toJson o.issuer] (by decide) rfl
    (by simp [LawfulWire.reads h])

instance : LawfulWire LimitOrder where
  plain _ := plain_record (by simp) (by simp [LawfulWire.plain])
  reads h _ o := reads_record h [toJson o.id, toJson o.expiration, toJson o.seller, toJson o.forSale,
    toJson o.sellPrice] (by decide) rfl (by simp [LawfulWire.reads h])

instance : LawfulWire CallOrder where
  plain _ := plain_record (by simp) (by simp [LawfulWire.plain])
  reads h _ o := reads_record h [toJson o.id, toJson o.borrower, toJson o.collateral, toJson o.debt,
    toJson o.callPrice] (by decide) rfl (by simp [LawfulWire.reads h])

instance : LawfulWire AccountBalance where
  plain _ := plain_record (by simp) (by simp [LawfulWire.plain])
  reads h _ o := reads_record h [toJson o.id, toJson o.owner, toJson o.asset, toJson o.balance] (by decide) rfl
    (by simp [LawfulWire.reads h])

instance : LawfulWire AddressBalance where
  plain _ := plain_record (by simp) (by simp [LawfulWire.plain])
  reads h _ o := reads_record h [toJson o.id, toJson o.owner, toJson o.balance] (by decide) rfl
    (by simp [LawfulWire.reads h])

instance : LawfulWire AppliedOperation where
  plain _ := plain_record (by simp) (by simp [LawfulWire.plain])
  reads h _ o := reads_record h [toJson o.id, toJson o.op, toJson o.outcome, toJson o.blockNumber,
    toJson o.transaction, toJson o.position, toJson o.virtualOp] (by decide) rfl (by simp [LawfulWire.reads h])

instance : LawfulWire HistoryLink where
  plain _ := plain_record (by simp) (by simp [LawfulWire.plain])
  reads h _ o := reads_record h [toJson o.id, toJson o.account, toJson o.operation, toJson o.sequence] (by decide) rfl
    (by simp [LawfulWire.reads h])

/-! ## The sort of a record -/

/-- No value is read from an object without that name. -/
def Requires (α : Type) [Wire α] (name : String) : Prop :=
  ∀ {order : Order}, order.Permutes → ∀ (src : Source) (es : List (String × Json)), name ∉ es.map (·.1) →
    (ofJson? src (arranged order (.obj es)) : Option α) = none

theorem bind_missing {α : Type} {order : Order} (h : order.Permutes) {names : List String} {name : String}
    {make : List Json → Option α} {es : List (String × Json)} (hname : name ∈ names)
    (hmissing : name ∉ es.map (·.1)) : (Json.fields? names (arranged order (.obj es))).bind make = none := by
  rw [Json.fields?_without h hname hmissing, Option.bind_none]

theorem requires_account : Requires Account "name" := fun h _ _ hes => bind_missing h (by decide) hes

theorem requires_asset : Requires Asset "symbol" := fun h _ _ hes => bind_missing h (by decide) hes

theorem requires_limitOrder : Requires LimitOrder "expiration" := fun h _ _ hes => bind_missing h (by decide) hes

theorem requires_callOrder : Requires CallOrder "borrower" := fun h _ _ hes => bind_missing h (by decide) hes

theorem requires_accountBalance : Requires AccountBalance "asset_type" := fun h _ _ hes =>
  bind_missing h (by decide) hes

theorem requires_addressBalance : Requires AddressBalance "balance" := fun h _ _ hes =>
  bind_missing h (by decide) hes

theorem requires_operation : Requires AppliedOperation "op" := fun h _ _ hes => bind_missing h (by decide) hes

namespace Record

/-- Reading a document as each sort, in the order they are tried. -/
def readers : List (Json → Option Record) :=
  [fun j => (ofJson? .text j).map .account, fun j => (ofJson? .text j).map .asset,
    fun j => (ofJson? .text j).map .limitOrder, fun j => (ofJson? .text j).map .callOrder,
    fun j => (ofJson? .text j).map .accountBalance, fun j => (ofJson? .text j).map .addressBalance,
    fun j => (ofJson? .text j).map .operation, fun j => (ofJson? .text j).map .link]

/-- How many sorts are tried before its own. -/
def place : Record → Nat
  | .account _ => 0
  | .asset _ => 1
  | .limitOrder _ => 2
  | .callOrder _ => 3
  | .accountBalance _ => 4
  | .addressBalance _ => 5
  | .operation _ => 6
  | .link _ => 7

theorem firstSort?_eq (j : Json) : firstSort? j = readers.findSome? (· j) := by
  have hcons : ∀ (read : Json → Option Record) (later : List (Json → Option Record)),
      (read :: later).findSome? (· j) = (read j <|> later.findSome? (· j)) := by
    intro read later
    rw [List.findSome?_cons]
    cases read j <;> rfl
  have hlast : ∀ o : Option Record, (o <|> none) = o := by
    intro o
    cases o <;> rfl
  simp only [readers, hcons, List.findSome?_nil, hlast]
  rfl

/-- The names a record of its sort is written with. -/
def names : Record → List String
  | .account _ => ["id", "name", "registrar", "owner_keys", "active_keys"]
  | .asset _ => ["id", "symbol", "precision", "issuer"]
  | .limitOrder _ => ["id", "expiration", "seller", "for_sale", "sell_price"]
  | .callOrder _ => ["id", "borrower", "collateral", "debt", "call_price"]
  | .accountBalance _ => ["id", "owner", "asset_type", "balance"]
  | .addressBalance _ => ["id", "owner", "balance"]
  | .operation _ => ["id", "op", "result", "block_num", "trx_in_block", "op_in_trx", "virtual_op"]
  | .link _ => ["id", "account", "operation_id", "sequence"]

theorem toJson_obj (r : Record) : ∃ es, toJson r = .obj es ∧ es.map (·.1) = r.names := by
  cases r <;> exact ⟨_, rfl, rfl⟩

/-- No earlier sort is read from what a record is written as. -/
theorem earlier_refuses (r : Record) {order : Order} (h : order.Permutes) :
    ∀ read ∈ readers.take r.place, read (arranged order (toJson r)) = none := by
  obtain ⟨es, hes, hnames⟩ := r.toJson_obj
  rw [hes]
  have hmissing : ∀ {α : Type} [Wire α] {name : String}, Requires α name → name ∉ r.names →
      (ofJson? .text (arranged order (.obj es)) : Option α) = none :=
    fun hrequires hname => hrequires h .text es (hnames ▸ hname)
  have haccount := hmissing requires_account
  have hasset := hmissing requires_asset
  have hlimit := hmissing requires_limitOrder
  have hcall := hmissing requires_callOrder
  have hbalance := hmissing requires_accountBalance
  have haddress := hmissing requires_addressBalance
  have hoperation := hmissing requires_operation
  cases r <;>
    simp [readers, place, names, haccount, hasset, hlimit, hcall, hbalance, haddress, hoperation]

theorem own_reads (r : Record) {order : Order} (h : order.Permutes) :
    ∃ read later, readers = readers.take r.place ++ read :: later ∧ read (arranged order (toJson r)) = some r := by
  cases r with
  | account o => exact ⟨_, _, rfl, congrArg (Option.map Record.account) (LawfulWire.reads h .text o)⟩
  | asset o => exact ⟨_, _, rfl, congrArg (Option.map Record.asset) (LawfulWire.reads h .text o)⟩
  | limitOrder o => exact ⟨_, _, rfl, congrArg (Option.map Record.limitOrder) (LawfulWire.reads h .text o)⟩
  | callOrder o => exact ⟨_, _, rfl, congrArg (Option.map Record.callOrder) (LawfulWire.reads h .text o)⟩
  | accountBalance o => exact ⟨_, _, rfl, congrArg (Option.map Record.accountBalance) (LawfulWire.reads h .text o)⟩
  | addressBalance o => exact ⟨_, _, rfl, congrArg (Option.map Record.addressBalance) (LawfulWire.reads h .text o)⟩
  | operation o => exact ⟨_, _, rfl, congrArg (Option.map Record.operation) (LawfulWire.reads h .text o)⟩
  | link o => exact ⟨_, _, rfl, congrArg (Option.map Record.link) (LawfulWire.reads h .text o)⟩

/-- A record is read as the sort it is. -/
theorem firstSort?_arranged (r : Record) {order : Order} (h : order.Permutes) :
    firstSort? (arranged order (toJson r)) = some r := by
  obtain ⟨read, later, hreaders, hown⟩ := r.own_reads h
  rw [firstSort?_eq]
  exact List.findSome?_eq_some_iff.mpr ⟨_, read, later, hreaders, hown, r.earlier_refuses h⟩

end Record

theorem depth_keys (ks : List PublicKey) : (toJson ks).depth ≤ 1 := by
  induction ks with
  | nil => decide
  | cons k ks ih => exact Nat.succ_le_succ (Nat.max_le.mpr ⟨Nat.le_refl 0, Nat.le_of_succ_le_succ ih⟩)

/-- A record is nested deepest where it has an operation in it. -/
theorem Record.depth_le (r : Record) : (toJson r).depth ≤ 4 := by
  cases r with
  | account o =>
    have howner := depth_keys o.ownerKeys
    have hactive := depth_keys o.activeKeys
    show max 0 (max 0 (max 0 (max (toJson o.ownerKeys).depth (max (toJson o.activeKeys).depth 0)))) + 1 ≤ 4
    omega
  | asset o => exact (by decide : 1 ≤ 4)
  | limitOrder o => exact (by decide : 3 ≤ 4)
  | callOrder o => exact (by decide : 3 ≤ 4)
  | accountBalance o => exact (by decide : 1 ≤ 4)
  | addressBalance o => exact (by decide : 2 ≤ 4)
  | operation o =>
    obtain ⟨id, op, outcome, blockNumber, transaction, position, virtualOp⟩ := o
    cases op <;> cases outcome <;> exact Nat.le_refl 4
  | link o => exact (by decide : 1 ≤ 4)

theorem Record.plain (r : Record) : (toJson r).Plain := by
  cases r with
  | account o | asset o | limitOrder o | callOrder o | accountBalance o | addressBalance o | operation o | link o =>
    exact LawfulWire.plain o

instance : LawfulWire Record where
  plain := Record.plain
  reads {order} h src r := by
    have hdepth := r.depth_le
    have hwhole := Json.isWhole_arranged h r.plain (by omega)
    exact (if_pos hwhole).trans (r.firstSort?_arranged h)

/-! ## Transactions and blocks -/

instance : LawfulWire Transaction where
  plain _ := plain_record (by simp) (by simp [LawfulWire.plain])
  reads h _ t := reads_record h [toJson t.refBlockNumber, toJson t.refBlockPrefix, toJson t.expiration,
    toJson t.operations, toJson t.signatures] (by decide) rfl (by simp [LawfulWire.reads h])

instance : LawfulWire Block where
  plain _ := plain_record (by simp) (by simp [LawfulWire.plain])
  reads h _ b := reads_record h [toJson b.previous, toJson b.timestamp, toJson b.witness, toJson b.transactions]
    (by decide) rfl (by simp [LawfulWire.reads h])

end LedgerWatch
