/-
  LedgerWatch.Wire — the form values take in documents.

  Numbers are integers in their type's range and never anything else; ids, keys and
  addresses are their texts. A record is an object of its fields: fields it does not know
  do not matter, every field of its own must be there once, and it may also come as an
  array of just the fields, in order.
-/

import LedgerWatch.Json
import LedgerWatch.Key
import LedgerWatch.Market

namespace LedgerWatch

/-- How a document is held while a value is read from it. The body of an operation may be an array in
a document that comes as text, or that was taken in whole first, but not in one held as a value. -/
inductive Source where
  | text
  | value
  deriving DecidableEq, Repr

class Wire (α : Type) where
  toJson : α → Json
  ofJson? : Source → Json → Option α

export Wire (toJson ofJson?)

namespace Json

/-- An integer from 0 on, below a bound. -/
def nat? (bound : Nat) : Json → Option Nat
  | .int n => if 0 ≤ n ∧ n < bound then some n.toNat else none
  | _ => none

def str? : Json → Option String
  | .str s => some s
  | _ => none

def arr? : Json → Option (List Json)
  | .arr items => some items
  | _ => none

def bool? : Json → Option Bool
  | .bool b => some b
  | _ => none

/-- An integer will do for a real number. -/
def real? : Json → Option Float
  | .real x => some x
  | .int n => some (if n < 0 then -(-n).toNat.toUInt64.toFloat else n.toNat.toUInt64.toFloat)
  | _ => none

end Json

instance : Wire Bool := ⟨.bool, fun _ => Json.bool?⟩

instance : Wire String := ⟨.str, fun _ => Json.str?⟩

instance : Wire Float := ⟨.real, fun _ => Json.real?⟩

instance : Wire UInt8 := ⟨fun x => .int x.toNat, fun _ j => (j.nat? UInt8.size).map UInt8.ofNat⟩

instance : Wire UInt16 := ⟨fun x => .int x.toNat, fun _ j => (j.nat? UInt16.size).map UInt16.ofNat⟩

instance : Wire UInt32 := ⟨fun x => .int x.toNat, fun _ j => (j.nat? UInt32.size).map UInt32.ofNat⟩

instance : Wire UInt64 := ⟨fun x => .int x.toNat, fun _ j => (j.nat? UInt64.size).map UInt64.ofNat⟩

instance : Wire Int64 where
  toJson x := .int x.toInt
  ofJson?
    | _, .int n => if Json.minInt ≤ n ∧ n < -Json.minInt then some (Int64.ofInt n) else none
    | _, _ => none

/-- Sizes and counts have 64 bits in documents. -/
instance : Wire Nat := ⟨fun n => .int n, fun _ => Json.nat? UInt64.size⟩

instance {α : Type} [Wire α] : Wire (List α) :=
  ⟨fun xs => .arr (xs.map toJson), fun src j => j.arr?.bind fun items => items.mapM (ofJson? src)⟩

/-- The wire form of what has a text. -/
@[reducible] def Wire.ofText {α ε : Type} (text : α → String) (parse : String → Except ε α) : Wire α :=
  ⟨fun x => .str (text x), fun _ j => j.str?.bind fun s => (parse s).toOption⟩

instance : Wire ObjectId := .ofText ObjectId.text ObjectId.parse

instance : Wire AccountId := .ofText AccountId.text AccountId.parse

instance : Wire AssetId := .ofText AssetId.text AssetId.parse

instance : Wire PublicKey := .ofText PublicKey.text PublicKey.parse

instance : Wire Address := .ofText Address.text Address.parse

instance : Wire BlockId := .ofText BlockId.text BlockId.parse

instance : Wire Amount where
  toJson a := .obj [("amount", toJson a.amount), ("asset_id", toJson a.asset)]
  ofJson? src j := do
    let [amount, asset] ← j.fields? ["amount", "asset_id"] | none
    return ⟨← ofJson? src amount, ← ofJson? src asset⟩

instance : Wire Price where
  toJson p := .obj [("base", toJson p.base), ("quote", toJson p.quote)]
  ofJson? src j := do
    let [base, quote] ← j.fields? ["base", "quote"] | none
    return ⟨← ofJson? src base, ← ofJson? src quote⟩

instance : Wire Market where
  toJson m := .obj [("base", toJson m.base), ("quote", toJson m.quote)]
  ofJson? src j := do
    let [base, quote] ← j.fields? ["base", "quote"] | none
    return ⟨← ofJson? src base, ← ofJson? src quote⟩

end LedgerWatch
