/-
  LedgerWatch.Watchable — what a membership filter can be armed with.

  Each thing has one key, a byte string with a letter for its sort in front. An account
  or asset id is the object id it stands for.
-/

import LedgerWatch.Key

namespace LedgerWatch

inductive Watchable where
  | object (id : ObjectId)
  | account (id : AccountId)
  | asset (id : AssetId)
  | key (key : PublicKey)
  | address (address : Address)
  deriving DecidableEq

namespace Watchable

def objectKey (id : ObjectId) : Bytes := 0x4f :: id.bytes

/-- The bytes that are hashed. -/
def bytes : Watchable → Bytes
  | .object id => objectKey id
  | .account id => objectKey id.objectId
  | .asset id => objectKey id.objectId
  | .key k => 0x4b :: k.octets.toList
  | .address a => 0x41 :: a.octets.toList

end Watchable

end LedgerWatch
