/-
  LedgerWatch.Proofs.Wire.Lossless — nothing is lost by writing a value.

  A document is taken to its text or to the value that holds it (`Json.asValue`), and from
  either to the other. A type is lossless if on each of these ways every value reads back
  from what it is written as; it is if its wire form is lawful (`lossless`), since a plain
  document reads back from its text and a value only puts its entries in another order.
-/

import LedgerWatch.Proofs.Json.Written
import LedgerWatch.Proofs.Wire.Lawful

namespace LedgerWatch

/-- A value reads back from a document, taken to a text or held as a value, and then taken to the other. -/
structure Decodes {α : Type} [Wire α] (j : Json) (x : α) : Prop where
  text : (Json.read j.write).bind (ofJson? .text) = some x
  value : ofJson? .value j.asValue = some x
  textOfValue : (Json.read j.asValue.write).bind (ofJson? .text) = some x
  valueOfText : ((Json.read j.write).map Json.asValue).bind (ofJson? .value) = some x

def Lossless (α : Type) [Wire α] : Prop := ∀ x : α, Decodes (toJson x) x

theorem lossless {α : Type} [Wire α] [LawfulWire α] : Lossless α := by
  intro x
  have hplain := LawfulWire.plain x
  have hread := Json.read_write hplain
  have hvalue : (toJson x).asValue = (toJson x).arranged Json.byKey := Json.asValue_plain hplain
  have hreadValue : Json.read (toJson x).asValue.write = some (toJson x).asValue := by
    rw [hvalue]
    exact Json.read_write (Json.plain_arranged Json.permutes_byKey _ hplain)
  have hsorted : ∀ src, ofJson? src (toJson x).asValue = some x := by
    intro src
    rw [hvalue]
    exact LawfulWire.reads Json.permutes_byKey src x
  refine ⟨?_, hsorted .value, ?_, ?_⟩
  · rw [hread, Option.bind_some, LawfulWire.reads_own]
  · rw [hreadValue, Option.bind_some, hsorted]
  · rw [hread, Option.map_some, Option.bind_some, hsorted]

end LedgerWatch
