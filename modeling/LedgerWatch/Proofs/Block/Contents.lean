/-
  LedgerWatch.Proofs.Block.Contents — the contents of a block, as bytes, determine it.

  Transactions follow each other with no count and nothing between them, so everything
  in one has to show where it ends: ids by the length of their text, which they are read
  back from, an operation by its index and what that calls for, the lists of operations
  and of signatures by their counts (`Transaction.delimited`). In front of them stands
  what has a fixed size.

  - `contents_determine_block`: blocks with the same contents are the same; two that
    differ have one id only if their different contents have the same bytes in the
    middle of the digest.
-/

import LedgerWatch.Proofs.Bytes.Delimited
import LedgerWatch.Proofs.Ident.Written

namespace LedgerWatch

open Bytes LedgerWatch.Text

/-! ## Ids -/

theorem length_write_le (n : UInt64) : (Numeral.write n.toNat).length ≤ 20 := by
  have hlt := n.toNat_lt
  exact (Nat.length_toDigits_le_iff (by omega) (by omega)).mpr (by omega)

/-- Three numerals and two points are far from too long. -/
theorem ObjectId.short_text (id : ObjectId) : Short (utf8 id.text).length := by
  have hspace := length_write_le id.space.toUInt64
  have htype := length_write_le id.type.toUInt64
  have hnumber := length_write_le id.number
  rw [UInt8.toNat_toUInt64] at hspace htype
  have hchars : id.chars.length ≤ 62 := by
    simp only [chars, List.length_append, List.length_cons]
    omega
  have hbytes := length_utf8_le id.text
  rw [text, String.toList_ofList] at hbytes
  rw [text, Short, UInt64.size]
  omega

theorem ObjectId.delimited : Delimited (fun _ => True) fun id : ObjectId => ofText id.text :=
  delimited_text.of_injective (fun id _ => id.short_text) fun _ _ => inj_of_reads ObjectId.parse_text

theorem AccountId.delimited : Delimited (fun _ => True) fun a : AccountId => ofText a.text :=
  delimited_text.of_injective (fun a _ => a.objectId.short_text) fun _ _ => inj_of_reads AccountId.parse_text

theorem AssetId.delimited : Delimited (fun _ => True) fun a : AssetId => ofText a.text :=
  delimited_text.of_injective (fun a _ => a.objectId.short_text) fun _ _ => inj_of_reads AssetId.parse_text

/-! ## Operations -/

theorem Amount.delimited : Delimited (fun _ => True) Amount.bytes := by
  intro a b r s _ _ h
  simp only [Amount.bytes, List.append_assoc] at h
  obtain ⟨hamount, h⟩ := delimited_int64.tell h
  obtain ⟨hasset, hrs⟩ := AssetId.delimited.tell h
  cases a; cases b
  exact ⟨by simp_all, hrs⟩

namespace Operation

/-- The index of the alternative. -/
def index : Operation → Nat
  | .transfer _ _ _ _ => 0
  | .limitOrderCreate _ _ _ _ _ _ => 1
  | .limitOrderCancel _ _ _ => 2
  | .callOrderUpdate _ _ _ _ => 3
  | .fillOrder _ _ _ _ _ => 4

/-- What stands behind the index. -/
def fieldBytes : Operation → Bytes
  | .transfer fee sender recipient amount =>
    fee.bytes ++ (ofText sender.text ++ (ofText recipient.text ++ amount.bytes))
  | .limitOrderCreate fee seller sells receives expiration fillOrKill =>
    fee.bytes ++ (ofText seller.text ++ (sells.bytes ++ (receives.bytes
      ++ (little 8 expiration.toNat ++ ofBool fillOrKill))))
  | .limitOrderCancel fee payer order => fee.bytes ++ (ofText payer.text ++ ofText order.text)
  | .callOrderUpdate fee account collateral debt =>
    fee.bytes ++ (ofText account.text ++ (collateral.bytes ++ debt.bytes))
  | .fillOrder fee order account pays receives =>
    fee.bytes ++ (ofText order.text ++ (ofText account.text ++ (pays.bytes ++ receives.bytes)))

theorem bytes_eq (op : Operation) : op.bytes = little 4 op.index ++ op.fieldBytes := by
  cases op <;> simp only [bytes, index, fieldBytes, List.append_assoc]

theorem index_lt (op : Operation) : op.index < Nat.pow 256 4 := by
  cases op <;> simp [index]

/-- The same index calls for the same fields. -/
theorem fieldBytes_tell {x y : Operation} {r s : Bytes} (hindex : x.index = y.index)
    (h : x.fieldBytes ++ r = y.fieldBytes ++ s) : x = y ∧ r = s := by
  cases x with
  | transfer fee sender recipient amount =>
    cases y with
    | transfer fee' sender' recipient' amount' =>
      simp only [fieldBytes, List.append_assoc] at h
      obtain ⟨rfl, h1⟩ := Amount.delimited.tell h
      obtain ⟨rfl, h2⟩ := AccountId.delimited.tell h1
      obtain ⟨rfl, h3⟩ := AccountId.delimited.tell h2
      obtain ⟨rfl, hrs⟩ := Amount.delimited.tell h3
      exact ⟨rfl, hrs⟩
    | limitOrderCreate | limitOrderCancel | callOrderUpdate | fillOrder => cases hindex
  | limitOrderCreate fee seller sells receives expiration fillOrKill =>
    cases y with
    | limitOrderCreate fee' seller' sells' receives' expiration' fillOrKill' =>
      simp only [fieldBytes, List.append_assoc] at h
      obtain ⟨rfl, h1⟩ := Amount.delimited.tell h
      obtain ⟨rfl, h2⟩ := AccountId.delimited.tell h1
      obtain ⟨rfl, h3⟩ := Amount.delimited.tell h2
      obtain ⟨rfl, h4⟩ := Amount.delimited.tell h3
      obtain ⟨rfl, h5⟩ := delimited_uint64.tell h4
      obtain ⟨rfl, hrs⟩ := delimited_bool.tell h5
      exact ⟨rfl, hrs⟩
    | transfer | limitOrderCancel | callOrderUpdate | fillOrder => cases hindex
  | limitOrderCancel fee payer order =>
    cases y with
    | limitOrderCancel fee' payer' order' =>
      simp only [fieldBytes, List.append_assoc] at h
      obtain ⟨rfl, h1⟩ := Amount.delimited.tell h
      obtain ⟨rfl, h2⟩ := AccountId.delimited.tell h1
      obtain ⟨rfl, hrs⟩ := ObjectId.delimited.tell h2
      exact ⟨rfl, hrs⟩
    | transfer | limitOrderCreate | callOrderUpdate | fillOrder => cases hindex
  | callOrderUpdate fee account collateral debt =>
    cases y with
    | callOrderUpdate fee' account' collateral' debt' =>
      simp only [fieldBytes, List.append_assoc] at h
      obtain ⟨rfl, h1⟩ := Amount.delimited.tell h
      obtain ⟨rfl, h2⟩ := AccountId.delimited.tell h1
      obtain ⟨rfl, h3⟩ := Amount.delimited.tell h2
      obtain ⟨rfl, hrs⟩ := Amount.delimited.tell h3
      exact ⟨rfl, hrs⟩
    | transfer | limitOrderCreate | limitOrderCancel | fillOrder => cases hindex
  | fillOrder fee order account pays receives =>
    cases y with
    | fillOrder fee' order' account' pays' receives' =>
      simp only [fieldBytes, List.append_assoc] at h
      obtain ⟨rfl, h1⟩ := Amount.delimited.tell h
      obtain ⟨rfl, h2⟩ := ObjectId.delimited.tell h1
      obtain ⟨rfl, h3⟩ := AccountId.delimited.tell h2
      obtain ⟨rfl, h4⟩ := Amount.delimited.tell h3
      obtain ⟨rfl, hrs⟩ := Amount.delimited.tell h4
      exact ⟨rfl, hrs⟩
    | transfer | limitOrderCreate | limitOrderCancel | callOrderUpdate => cases hindex

theorem delimited : Delimited (fun _ => True) Operation.bytes := by
  intro x y r s _ _ h
  rw [bytes_eq, bytes_eq, List.append_assoc, List.append_assoc] at h
  obtain ⟨hindex, hfields⟩ := delimited_little 4 x.index_lt y.index_lt h
  exact fieldBytes_tell hindex hfields

end Operation

/-! ## Transactions and blocks -/

/-- Lists and texts are no longer than eight bytes can tell, as in any memory. -/
structure Transaction.Fits (t : Transaction) : Prop where
  operations : Short t.operations.length
  signatures : Short t.signatures.length
  texts : ∀ s ∈ t.signatures, Short (utf8 s).length

def Block.Fits (b : Block) : Prop := ∀ t ∈ b.transactions, t.Fits

theorem Transaction.delimited : Delimited Transaction.Fits Transaction.bytes := by
  intro t u r s ht hu h
  simp only [Transaction.bytes, List.append_assoc] at h
  obtain ⟨hnumber, h⟩ := delimited_uint16.tell h
  obtain ⟨hreference, h⟩ := delimited_uint32.tell h
  obtain ⟨hexpiration, h⟩ := delimited_uint64.tell h
  obtain ⟨hoperations, h⟩ := Operation.delimited.items ⟨ht.operations, fun _ _ => trivial⟩
    ⟨hu.operations, fun _ _ => trivial⟩ h
  obtain ⟨hsignatures, hrs⟩ := delimited_text.items ⟨ht.signatures, ht.texts⟩ ⟨hu.signatures, hu.texts⟩ h
  cases t; cases u
  exact ⟨by simp_all, hrs⟩

theorem Transaction.bytes_ne_nil (t : Transaction) : t.bytes ≠ [] := by
  intro h
  have hlength := congrArg List.length h
  simp only [Transaction.bytes, List.length_append, length_little, List.length_nil] at hlength
  omega

theorem Block.bytes_inj {b c : Block} (hb : b.Fits) (hc : c.Fits) (h : b.bytes = c.bytes) : b = c := by
  simp only [Block.bytes, List.append_assoc] at h
  obtain ⟨hprevious, h⟩ := List.append_inj h (by rw [b.previous.octets.length_eq, c.previous.octets.length_eq])
  obtain ⟨htime, h⟩ := List.append_inj h (by rw [length_big, length_big])
  obtain ⟨hwitness, h⟩ := List.append_inj h (by rw [ObjectId.length_bytes, ObjectId.length_bytes])
  have hblock : b.previous = c.previous := congrArg BlockId.mk (Octets.ext hprevious)
  have htimestamp := UInt64.toNat_inj.mp (big_inj b.timestamp.toNat_lt c.timestamp.toNat_lt htime)
  have hid := ObjectId.bytes_inj hwitness
  have htransactions := Transaction.delimited.flatMap_inj Transaction.bytes_ne_nil hb hc h
  cases b; cases c
  simp_all

/-- The bytes of the digest that stand in the id. -/
def Block.digestPart (b : Block) : Bytes := ((Digest.Sha256.digest b.bytes).toList.drop 4).take 16

theorem Block.digestPart_of_id {b c : Block} (h : b.id = c.id) : b.digestPart = c.digestPart := by
  have hoctets := congrArg (fun i => i.octets.toList) h
  exact (List.append_inj hoctets (by rw [length_big, length_big])).2

/-- Blocks are told by what their digests are taken of, and so, but for a collision of the digests, by their ids. -/
theorem contents_determine_block (b c : Block) (hb : b.Fits) (hc : c.Fits) :
    (b.bytes = c.bytes → b = c) ∧ (b ≠ c → b.id = c.id → b.bytes ≠ c.bytes ∧ b.digestPart = c.digestPart) := by
  constructor
  · exact Block.bytes_inj hb hc
  · intro hne hid
    exact ⟨fun hbytes => hne (Block.bytes_inj hb hc hbytes), Block.digestPart_of_id hid⟩

def ofSigned (signatures : List (List String)) : Block :=
  ⟨⟨.replicate 20 0⟩, 0, ⟨1, 6, 1⟩, signatures.map fun s => ⟨0, 0, 0, [], s⟩⟩

/-- The same signatures, in one transaction and in two. -/
theorem contents_determine_block_of_signatures :
    (ofSigned [["a", "bc"]]).Fits ∧ (ofSigned [["a"], ["bc"]]).Fits ∧
      (ofSigned [["a", "bc"]]).bytes ≠ (ofSigned [["a"], ["bc"]]).bytes := by
  have hone : (ofSigned [["a", "bc"]]).Fits := by
    intro t ht
    obtain rfl := List.mem_singleton.mp ht
    exact ⟨by decide, by decide, by decide⟩
  have htwo : (ofSigned [["a"], ["bc"]]).Fits := by
    intro t ht
    rcases List.mem_cons.mp ht with rfl | ht
    · exact ⟨by decide, by decide, by decide⟩
    · obtain rfl := List.mem_singleton.mp ht
      exact ⟨by decide, by decide, by decide⟩
  refine ⟨hone, htwo, fun hbytes => ?_⟩
  have hsame := (contents_determine_block _ _ hone htwo).1 hbytes
  exact absurd hsame (by decide)

end LedgerWatch
