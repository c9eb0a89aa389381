/-
  LedgerWatch.Proofs.Block.Chain — block numbers along a chain.

  In a chain each block has the id of the one before it. The first four bytes of an id are
  the block's number, whatever the digest says of its contents, so the next block counts
  on from it (`number_of_follows`), and from the last number to 0.

  - `numbers_along_chain`: the number of a block is that of the first one and its place in
    the chain, and a chain with no more blocks than there are numbers has no id twice. All
    of this holds of any digest, and needs none that is free of collisions.
-/

import LedgerWatch.Block
import Mathlib.Data.List.Chain

namespace LedgerWatch

open Bytes

namespace Block

/-- The id a block has under a digest. -/
def idBy (digest : Bytes → Octets 32) (b : Block) : BlockId :=
  ⟨⟨big 4 b.number.toNat ++ ((digest b.bytes).toList.drop 4).take 16, by simp [(digest b.bytes).length_eq]⟩⟩

theorem id_eq (b : Block) : b.id = b.idBy Digest.Sha256.digest := rfl

variable {digest : Bytes → Octets 32}

/-- The number is read back from the id. -/
theorem blockNumber_idBy (b : Block) : (b.idBy digest).blockNumber = b.number := by
  have hfront : (b.idBy digest).octets.toList.take 4 = big 4 b.number.toNat :=
    List.take_left' (length_big 4 b.number.toNat)
  have hvalue : b.number.toNat % Nat.pow 256 4 = b.number.toNat := Nat.mod_eq_of_lt b.number.toNat_lt
  rw [BlockId.blockNumber, hfront, ofBig_big, hvalue, UInt32.ofNat_toNat]

theorem number_of_follows {b c : Block} (h : c.previous = b.idBy digest) : c.number = b.number + 1 := by
  rw [number, h, blockNumber_idBy]

end Block

/-- Each block but the first has the id of the one before it. -/
def Chained (digest : Bytes → Octets 32) (chain : List Block) : Prop :=
  chain.IsChain fun b c => c.previous = b.idBy digest

section

variable {digest : Bytes → Octets 32} {first : Block} {rest : List Block}

/-- A block's number is as far from the first one's as its place, the numbers being taken in a circle. -/
theorem number_at (h : Chained digest (first :: rest)) (i : Nat) (hi : i < (first :: rest).length) :
    (first :: rest)[i].number.toNat = (first.number.toNat + i) % UInt32.size := by
  have hfirst := first.number.toNat_lt
  induction rest generalizing first i with
  | nil =>
    obtain rfl : i = 0 := Nat.lt_one_iff.mp hi
    exact (Nat.mod_eq_of_lt hfirst).symm
  | cons next rest ih =>
    obtain ⟨hnext, hrest⟩ := List.isChain_cons_cons.mp h
    cases i with
    | zero => exact (Nat.mod_eq_of_lt hfirst).symm
    | succ i =>
      have hnumber : next.number.toNat = (first.number.toNat + 1) % UInt32.size := by
        rw [Block.number_of_follows hnext, UInt32.toNat_add]
        rfl
      rw [List.getElem_cons_succ, ih hrest i (Nat.lt_of_succ_lt_succ hi) next.number.toNat_lt, hnumber, Nat.mod_add_mod,
        Nat.add_right_comm, Nat.add_assoc]

/-- As long as the numbers last, no two blocks have one. -/
theorem ids_differ (h : Chained digest (first :: rest)) (hlength : rest.length < UInt32.size) :
    ((first :: rest).map (Block.idBy digest)).Nodup := by
  refine List.pairwise_map.mpr (List.pairwise_iff_getElem.mpr fun i j hi hj hij heq => ?_)
  have hnumber := congrArg BlockId.blockNumber heq
  rw [Block.blockNumber_idBy, Block.blockNumber_idBy] at hnumber
  have hplace := congrArg UInt32.toNat hnumber
  rw [number_at h i hi, number_at h j hj] at hplace
  rw [List.length_cons] at hi hj
  simp only [UInt32.size] at hplace hlength
  omega

end

/-- Along a chain the blocks are numbered one by one, and so are their ids, in a circle of all numbers. Up to its
length no id comes twice. -/
theorem numbers_along_chain (digest : Bytes → Octets 32) (first : Block) (rest : List Block)
    (h : Chained digest (first :: rest)) :
    (∀ b : Block, b.idBy Digest.Sha256.digest = b.id) ∧
      (∀ (i : Nat) (hi : i < (first :: rest).length),
        let b := (first :: rest)[i]
        (b.idBy digest).blockNumber = b.number ∧ b.number.toNat = (first.number.toNat + i) % UInt32.size) ∧
      (rest.length < UInt32.size → ((first :: rest).map (Block.idBy digest)).Nodup) :=
  ⟨fun b => b.id_eq.symm, fun i hi => ⟨Block.blockNumber_idBy _, number_at h i hi⟩, ids_differ h⟩

/-- The last block of all numbers. -/
def lastBlock : Block :=
  ⟨⟨⟨big 4 0xfffffffe ++ List.replicate 16 0, by simp⟩⟩, 0, ⟨1, 6, 1⟩, []⟩

/-- The block behind another one, by the next witness. -/
def Block.successor (b : Block) (timestamp : UInt64) : Block := ⟨b.id, timestamp, ⟨1, 6, b.witness.number + 1⟩, []⟩

theorem numbers_along_chain_past_last :
    let second := lastBlock.successor 5
    let third := second.successor 10
    Chained Digest.Sha256.digest [lastBlock, second, third] ∧ [second, third].length < UInt32.size ∧
      lastBlock.number = 0xffffffff ∧ second.number.toNat = 0 ∧ third.number.toNat = 1 ∧
      third.id.blockNumber = third.number ∧ [lastBlock.id, second.id, third.id].Nodup := by
  intro second third
  have hchained : Chained Digest.Sha256.digest [lastBlock, second, third] :=
    .cons_cons rfl (.cons_cons rfl (.singleton _))
  obtain ⟨-, hnumbers, hdiffer⟩ := numbers_along_chain _ _ _ hchained
  have hfirst : lastBlock.number = 0xffffffff := by decide
  refine ⟨hchained, by decide, hfirst, ?_, ?_, (hnumbers 2 (by decide)).1, hdiffer (by decide)⟩
  · have hsecond := (hnumbers 1 (by decide)).2
    rw [hfirst] at hsecond
    exact hsecond
  · have hthird := (hnumbers 2 (by decide)).2
    rw [hfirst] at hthird
    exact hthird

end LedgerWatch
