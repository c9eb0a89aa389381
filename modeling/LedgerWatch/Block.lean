/-
  LedgerWatch.Block — transactions and blocks.

  The id of a block is the digest of its contents with the block's number in place of
  the first four bytes. The contents are bytes: integers have a fixed width, least
  significant byte first, texts and lists have their length in eight bytes in front, an
  alternative its index in four, and ids are the text they are written as. The block's
  own fields stand in front as they are, most significant byte first, and transactions
  follow each other with nothing between them.
-/

import LedgerWatch.Record

namespace LedgerWatch

structure Transaction where
  refBlockNumber : UInt16
  refBlockPrefix : UInt32
  expiration : UInt64
  operations : List Operation
  signatures : List String
  deriving DecidableEq

structure Block where
  previous : BlockId
  timestamp : UInt64
  witness : ObjectId
  transactions : List Transaction
  deriving DecidableEq

namespace Bytes

def ofText (s : String) : Bytes := little 8 (utf8 s).length ++ utf8 s

def ofItems {α : Type} (f : α → Bytes) (xs : List α) : Bytes := little 8 xs.length ++ xs.flatMap f

def ofBool (b : Bool) : Bytes := [if b then 1 else 0]

end Bytes

open Bytes

def Amount.bytes (a : Amount) : Bytes := little 8 a.amount.toUInt64.toNat ++ ofText a.asset.text

def Operation.bytes : Operation → Bytes
  | .transfer fee sender recipient amount =>
    little 4 0 ++ fee.bytes ++ ofText sender.text ++ ofText recipient.text ++ amount.bytes
  | .limitOrderCreate fee seller sells receives expiration fillOrKill =>
    little 4 1 ++ fee.bytes ++ ofText seller.text ++ sells.bytes ++ receives.bytes
      ++ little 8 expiration.toNat ++ ofBool fillOrKill
  | .limitOrderCancel fee payer order => little 4 2 ++ fee.bytes ++ ofText payer.text ++ ofText order.text
  | .callOrderUpdate fee account collateral debt =>
    little 4 3 ++ fee.bytes ++ ofText account.text ++ collateral.bytes ++ debt.bytes
  | .fillOrder fee order account pays receives =>
    little 4 4 ++ fee.bytes ++ ofText order.text ++ ofText account.text ++ pays.bytes ++ receives.bytes

def Transaction.bytes (t : Transaction) : Bytes :=
  little 2 t.refBlockNumber.toNat ++ little 4 t.refBlockPrefix.toNat ++ little 8 t.expiration.toNat
    ++ ofItems Operation.bytes t.operations ++ ofItems ofText t.signatures

namespace Block

/-- One more than the previous block's; after the last number comes 0. -/
def number (b : Block) : UInt32 := b.previous.blockNumber + 1

/-- What the digest is taken of. -/
def bytes (b : Block) : Bytes :=
  b.previous.octets.toList ++ big 8 b.timestamp.toNat ++ b.witness.bytes
    ++ b.transactions.flatMap Transaction.bytes

def id (b : Block) : BlockId :=
  ⟨⟨big 4 b.number.toNat ++ ((Digest.Sha256.digest b.bytes).toList.drop 4).take 16, by
    simp [(Digest.Sha256.digest b.bytes).length_eq]⟩⟩

end Block

end LedgerWatch
