/-
  LedgerWatch.Proofs.Ident.Written — the text of an identifier reads back as it.

  `ObjectId.parse_text`, `AccountId.parse_text`, `AssetId.parse_text` for ids, and
  `PublicKey.parse_text`, `Address.parse_text`, `BlockId.parse_text` for byte strings. So
  no two of a type have one text (`inj_of_reads`).
-/

import LedgerWatch.Key
import LedgerWatch.Proofs.Text.Hexadecimal
import LedgerWatch.Proofs.Text.Written

namespace LedgerWatch

open LedgerWatch.Text

/-- What reads back from its text is told by it. -/
theorem inj_of_reads {α : Type} {parse : String → Except IdError α} {text : α → String}
    (h : ∀ x, parse (text x) = .ok x) {a b : α} (heq : text a = text b) : a = b := by
  have hread := h a
  rw [heq, h b] at hread
  exact (Except.ok.inj hread).symm

namespace ObjectId

theorem cut_append {xs : List Char} (h : '.' ∉ xs) (ys : List Char) : cut (xs ++ '.' :: ys) = some (xs, ys) := by
  induction xs with
  | nil => rfl
  | cons x xs ih =>
    rw [List.mem_cons, not_or] at h
    rw [List.cons_append, cut, if_neg (Ne.symm h.1), ih h.2]
    rfl

theorem point_not_mem_write (n : Nat) : '.' ∉ Numeral.write n := fun h => by
  have := Numeral.isDigit_of_mem_write h
  contradiction

theorem ofChars?_chars (id : ObjectId) : ofChars? id.chars = some id := by
  have hspace : Numeral.readBelow UInt8.size (Numeral.write id.space.toNat) = some id.space.toNat :=
    Numeral.readBelow_write id.space.toNat_lt
  have htype : Numeral.readBelow UInt8.size (Numeral.write id.type.toNat) = some id.type.toNat :=
    Numeral.readBelow_write id.type.toNat_lt
  have hnumber : Numeral.readBelow UInt64.size (Numeral.write id.number.toNat) = some id.number.toNat :=
    Numeral.readBelow_write id.number.toNat_lt
  have hchars : cut id.chars = some (Numeral.write id.space.toNat,
      Numeral.write id.type.toNat ++ '.' :: Numeral.write id.number.toNat) := by
    rw [chars, List.append_assoc, List.cons_append]
    exact cut_append (point_not_mem_write _) _
  simp only [ofChars?, hchars, cut_append (point_not_mem_write _), hspace, htype, hnumber, Option.bind_eq_bind,
    Option.bind_some, Option.pure_def, UInt8.ofNat_toNat, UInt64.ofNat_toNat]

@[simp] theorem parse_text (id : ObjectId) : parse id.text = .ok id := by
  rw [parse, text, String.toList_ofList, ofChars?_chars]

theorem numberOf_id (kind : Kind) (n : UInt64) : (kind.id n).numberOf kind = .ok n := by
  simp [numberOf, is, Kind.id]

end ObjectId

@[simp] theorem AccountId.parse_text (a : AccountId) : parse a.text = .ok a := by
  rw [parse, text, ObjectId.parse_text]
  show (ObjectId.numberOf .account (Kind.account.id a.number)).map mk = .ok a
  rw [ObjectId.numberOf_id]
  rfl

@[simp] theorem AssetId.parse_text (a : AssetId) : parse a.text = .ok a := by
  rw [parse, text, ObjectId.parse_text]
  show (ObjectId.numberOf .asset (Kind.asset.id a.number)).map mk = .ok a
  rw [ObjectId.numberOf_id]
  rfl

theorem Octets.parse_text {n : Nat} (o : Octets n) : Octets.parse o.text = .ok o := by
  rw [Octets.parse, Octets.text, Hex.decodeOctets_encode]
  rfl

@[simp] theorem PublicKey.parse_text (k : PublicKey) : parse k.text = .ok k := by
  rw [parse, text, Octets.parse_text]
  rfl

@[simp] theorem Address.parse_text (a : Address) : parse a.text = .ok a := by
  rw [parse, text, Octets.parse_text]
  rfl

@[simp] theorem BlockId.parse_text (b : BlockId) : parse b.text = .ok b := by
  rw [parse, text, Octets.parse_text]
  rfl

end LedgerWatch
