/-
  LedgerWatch.Proofs.Session.Swapped — orders with their prices the other way round.

  A price names two assets one after the other, a market names them in no order. So an
  order stands in one market whichever way its price is written (`market?_swapped`), and
  where some orders are written the other way round every market has the same orders in
  its queue, position by position (`ordersIn_swapped`), and there are batches for the same
  callbacks (`oneEach_related`).
-/

import Mathlib.Data.List.Forall2
import LedgerWatch.Proofs.Session.Markets

namespace LedgerWatch

def Price.swapped (p : Price) : Price := ⟨p.quote, p.base⟩

namespace Record

/-- An order with its price the other way round; any other object as it is. -/
def swapped : Record → Record
  | .limitOrder o => .limitOrder { o with sellPrice := o.sellPrice.swapped }
  | .callOrder o => .callOrder { o with callPrice := o.callPrice.swapped }
  | r => r

/-- The same object, its price as it is or the other way round. -/
def SwappedOrSame (r r' : Record) : Prop := r' = r ∨ r' = r.swapped

theorem market?_swapped (r : Record) : r.swapped.market? = r.market? := by
  cases r with
  | limitOrder o => exact congrArg some (Market.of_comm o.sellPrice.quote.asset o.sellPrice.base.asset)
  | callOrder o => exact congrArg some (Market.of_comm o.callPrice.quote.asset o.callPrice.base.asset)
  | account | asset | accountBalance | addressBalance | operation | link => rfl

theorem id_swapped (r : Record) : r.swapped.id = r.id := by
  cases r <;> rfl

variable {r r' : Record}

theorem SwappedOrSame.market (h : SwappedOrSame r r') : r'.market? = r.market? := by
  rcases h with rfl | rfl
  · rfl
  · exact r.market?_swapped

theorem SwappedOrSame.id (h : SwappedOrSame r r') : r'.id = r.id := by
  rcases h with rfl | rfl
  · rfl
  · exact r.id_swapped

end Record

theorem find?_swapped {rs rs' : List Record} (h : List.Forall₂ Record.SwappedOrSame rs rs') (id : ObjectId) :
    Option.Rel Record.SwappedOrSame (rs.find? (·.id = id)) (rs'.find? (·.id = id)) := by
  induction h with
  | nil => exact .none
  | cons hr _ ih =>
    rw [List.find?_cons, List.find?_cons, hr.id]
    split
    · exact .some hr
    · exact ih

theorem lastWithId_swapped {rs rs' : List Record} (h : List.Forall₂ Record.SwappedOrSame rs rs') (id : ObjectId) :
    Option.Rel Record.SwappedOrSame (lastWithId rs id) (lastWithId rs' id) :=
  find?_swapped (List.forall₂_reverse_iff.mpr h) id

theorem find?_insert_swapped {l l' : Ledger} (h : ∀ x, Option.Rel Record.SwappedOrSame (l.find? x) (l'.find? x))
    (r : Record) (x : ObjectId) :
    Option.Rel Record.SwappedOrSame ((l.insert r).find? x) ((l'.insert r.swapped).find? x) := by
  show Option.Rel _ ((l.objects.insert r.id r).get? x) ((l'.objects.insert r.swapped.id r.swapped).get? x)
  rw [r.id_swapped, SortedMap.get?_insert, SortedMap.get?_insert]
  split
  · exact .some (.inr rfl)
  · exact h x

namespace Subscriptions

/-- One id, and one object with its price either way. -/
def SameOrder (e e' : ObjectId × Record) : Prop := e'.1 = e.1 ∧ Record.SwappedOrSame e.2 e'.2

theorem orderIn_swapped {o o' : Option Record} (h : Option.Rel Record.SwappedOrSame o o') (id : ObjectId) (m : Market) :
    Option.Rel SameOrder ((o.filter fun r => r.market? = some m).map fun r => (id, r))
      ((o'.filter fun r => r.market? = some m).map fun r => (id, r)) := by
  cases h with
  | none => exact .none
  | some hr =>
    rw [Option.filter_some, Option.filter_some, hr.market]
    split
    · exact .some ⟨rfl, hr⟩
    · exact .none

theorem ordersIn_swapped {resolve resolve' : ObjectId → Option Record}
    (h : ∀ x, Option.Rel Record.SwappedOrSame (resolve x) (resolve' x)) (ids : List ObjectId) (m : Market) :
    List.Forall₂ SameOrder (ordersIn resolve ids m) (ordersIn resolve' ids m) := by
  refine List.rel_filterMap (R := Eq) ?_ (List.forall₂_refl _)
  rintro x _ rfl
  exact orderIn_swapped (h x) x m

/-- Where the queues are alike, so are the batches. -/
theorem oneEach_related {α : Type} {s : Subscriptions} {queue queue' : Market → List α} {write : List α → Json}
    {R : α → α → Prop} (hqueue : ∀ m, List.Forall₂ R (queue m) (queue' m)) {P : Batch → Batch → Prop}
    (hwrite : ∀ callback xs xs', List.Forall₂ R xs xs' → P ⟨.market, callback, write xs⟩ ⟨.market, callback, write xs'⟩) :
    List.Forall₂ P (s.oneEach queue write) (s.oneEach queue' write) := by
  refine List.rel_filterMap (R := Eq) ?_ (List.forall₂_refl _)
  rintro ⟨m, callback⟩ _ rfl
  dsimp only
  have hsame : queue m = [] ↔ queue' m = [] := by
    rw [← List.length_eq_zero_iff, (hqueue m).length_eq, List.length_eq_zero_iff]
  by_cases hnil : queue m = []
  · rw [if_pos hnil, if_pos (hsame.mp hnil)]
    exact .none
  · rw [if_neg hnil, if_neg fun hnil' => hnil (hsame.mpr hnil')]
    exact .some (hwrite callback _ _ (hqueue m))

end Subscriptions

end LedgerWatch
