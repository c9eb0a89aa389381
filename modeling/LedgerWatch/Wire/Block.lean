/-
  LedgerWatch.Wire.Block — the wire form of transactions and blocks.
-/

import LedgerWatch.Wire.Record
import LedgerWatch.Block

namespace LedgerWatch

instance : Wire Transaction where
  toJson t := .obj [("ref_block_num", toJson t.refBlockNumber), ("ref_block_prefix", toJson t.refBlockPrefix),
    ("expiration", toJson t.expiration), ("operations", toJson t.operations), ("signatures", toJson t.signatures)]
  ofJson? src j := do
    let [refBlockNumber, refBlockPrefix, expiration, operations, signatures] ←
      j.fields? ["ref_block_num", "ref_block_prefix", "expiration", "operations", "signatures"] | none
    return ⟨← ofJson? src refBlockNumber, ← ofJson? src refBlockPrefix, ← ofJson? src expiration,
      ← ofJson? src operations, ← ofJson? src signatures⟩

instance : Wire Block where
  toJson b := .obj [("previous", toJson b.previous), ("timestamp", toJson b.timestamp),
    ("witness", toJson b.witness), ("transactions", toJson b.transactions)]
  ofJson? src j := do
    let [previous, timestamp, witness, transactions] ←
      j.fields? ["previous", "timestamp", "witness", "transactions"] | none
    return ⟨← ofJson? src previous, ← ofJson? src timestamp, ← ofJson? src witness, ← ofJson? src transactions⟩

end LedgerWatch
