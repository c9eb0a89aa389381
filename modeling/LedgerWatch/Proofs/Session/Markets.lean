/-
  LedgerWatch.Proofs.Session.Markets — the market batches a signal comes to.

  Items sorted out by market keep their order, and there is a queue for a market as soon
  as there is an item (`get?_ofList`). The queues are walked in the order of the markets,
  and so are the markets a session has asked for; so what is handed over is one batch for
  each of these that has something in its queue (`marketBatches_ofList`).

  Of a set of changes that is, for each market, the orders that resolve to one in it
  (`ordersIn`), in the order of the signal, after the batch of updates
  (`changeNotices_batches`). What is removed resolves to its last state, whatever states
  came before that (`mem_ordersIn_lastWithId`). A change that is told whole is told by its
  records (`payload_of_whole`). An order that does not resolve to one is counted, as long
  as any market is asked for (`changeNotices_anomalies`).
-/

import Mathlib.Data.List.Basic
import Mathlib.Data.List.Induction
import LedgerWatch.Proofs.Session.Updates

namespace LedgerWatch

namespace MarketQueues

variable {α : Type}

/-- The items of a market, in the order they came. -/
def queueFor (m : Market) (items : List (Market × α)) : List α := (items.filter fun e => e.1 = m).map (·.2)

theorem queueFor_snoc (m : Market) (items : List (Market × α)) (e : Market × α) :
    queueFor m (items ++ [e]) = if e.1 = m then queueFor m items ++ [e.2] else queueFor m items := by
  by_cases h : e.1 = m <;> simp [queueFor, List.filter_append, h]

theorem get?_push (q : MarketQueues α) (m m' : Market) (x : α) :
    (q.push m x).get? m' = if m = m' then some ((q.get? m).getD [] ++ [x]) else q.get? m' := by
  rw [push, get?, SortedMap.get?_insert]
  by_cases h : m = m'
  · rw [if_pos h, if_pos (congrArg rank h)]
  · rw [if_neg h, if_neg fun hrank => h (Ranked.rank_inj hrank)]
    rfl

theorem ofList_snoc (items : List (Market × α)) (e : Market × α) :
    ofList (items ++ [e]) = (ofList items).push e.1 e.2 := by
  rw [ofList, List.foldl_append]
  rfl

/-- A market has a queue as soon as it has an item. -/
theorem get?_ofList (items : List (Market × α)) (m : Market) :
    (ofList items).get? m = if queueFor m items = [] then none else some (queueFor m items) := by
  induction items using List.reverseRecOn with
  | nil => rfl
  | append_singleton items e ih =>
    rw [ofList_snoc, get?_push, queueFor_snoc]
    by_cases h : e.1 = m
    · have hgetD : ((ofList items).get? m).getD [] = queueFor m items := by
        rw [ih]
        split
        · rename_i hnil; exact hnil.symm
        · rfl
      rw [if_pos h, if_pos h, h, hgetD, if_neg (by simp)]
    · rw [if_neg h, if_neg h, ih]

end MarketQueues

namespace Subscriptions

/-- One batch for each market asked for that has anything in its queue, in the order of the markets. -/
def oneEach {α : Type} (s : Subscriptions) (queue : Market → List α) (write : List α → Json) : List Batch :=
  s.markets.entries.filterMap fun (m, callback) =>
    if queue m = [] then none else some ⟨.market, callback, write (queue m)⟩

theorem oneEach_congr {α β : Type} {s : Subscriptions} {queue : Market → List α} {queue' : Market → List β}
    {write : List α → Json} {write' : List β → Json}
    (hempty : ∀ m callback, s.marketCallback? m = some callback → (queue m = [] ↔ queue' m = []))
    (hwrite : ∀ m callback, s.marketCallback? m = some callback → write (queue m) = write' (queue' m)) :
    s.oneEach queue write = s.oneEach queue' write' := by
  refine List.filterMap_congr ?_
  rintro ⟨m, callback⟩ hmem
  have hm : s.marketCallback? m = some callback := s.markets.mem_entries_iff.mp hmem
  dsimp only
  by_cases hqueue : queue m = []
  · rw [if_pos hqueue, if_pos ((hempty m callback hm).mp hqueue)]
  · rw [if_neg hqueue, if_neg fun h => hqueue ((hempty m callback hm).mpr h), hwrite m callback hm]

theorem mem_oneEach {α : Type} {s : Subscriptions} {queue : Market → List α} {write : List α → Json} {b : Batch}
    (hb : b ∈ s.oneEach queue write) :
    b.stream = .market ∧ ∃ m, s.marketCallback? m = some b.callback ∧ b.payload = write (queue m) := by
  obtain ⟨⟨m, callback⟩, hmem, hsome⟩ := List.mem_filterMap.mp hb
  dsimp only at hsome
  split at hsome
  · contradiction
  · cases hsome
    exact ⟨rfl, m, s.markets.mem_entries_iff.mp hmem, rfl⟩

theorem oneEach_nowhere {α : Type} {s : Subscriptions} (h : ¬s.hasMarkets = true) (queue : Market → List α)
    (write : List α → Json) : s.oneEach queue write = [] := by
  have hempty : s.markets.entries = [] := by simpa [hasMarkets, SortedMap.isEmpty] using h
  rw [oneEach, hempty]
  rfl

theorem oneEach_single {α : Type} {s : Subscriptions} {m : Market} {callback : Callback}
    (h : s.markets.entries = [(m, callback)]) {queue : Market → List α} (hqueue : queue m ≠ []) (write : List α → Json) :
    s.oneEach queue write = [⟨.market, callback, write (queue m)⟩] := by
  rw [oneEach, h]
  simp only [List.filterMap_cons, List.filterMap_nil, if_neg hqueue]

/-- To walk the queues or the markets asked for comes to the same. -/
theorem marketBatches_ofList {α : Type} (s : Subscriptions) (items : List (Market × α)) (write : List α → Json) :
    s.marketBatches (.ofList items) write = s.oneEach (MarketQueues.queueFor · items) write := by
  have hjoin := SortedMap.filterMap_get? (MarketQueues.ofList items).queues s.markets
    fun _ xs callback => (⟨.market, callback, write xs⟩ : Batch)
  refine hjoin.trans (List.filterMap_congr ?_)
  rintro ⟨m, callback⟩ _
  show ((MarketQueues.ofList items).get? m).map _ = _
  rw [MarketQueues.get?_ofList]
  by_cases hqueue : MarketQueues.queueFor m items = []
  · simp only [hqueue, if_true, Option.map_none]
  · simp only [hqueue, if_false, Option.map_some]

/-! ## The orders of a change -/

/-- The orders among ids that resolve to an order in a market, with what they resolve to. -/
def ordersIn (resolve : ObjectId → Option Record) (ids : List ObjectId) (m : Market) : List (ObjectId × Record) :=
  (ids.filter isOrder).filterMap fun x => ((resolve x).filter fun r => r.market? = some m).map fun r => (x, r)

theorem mem_ordersIn {resolve : ObjectId → Option Record} {ids : List ObjectId} {m : Market} {x : ObjectId} {r : Record} :
    (x, r) ∈ ordersIn resolve ids m ↔ x ∈ ids ∧ isOrder x = true ∧ resolve x = some r ∧ r.market? = some m := by
  rw [ordersIn, List.mem_filterMap]
  constructor
  · intro h
    obtain ⟨y, hy, hfound⟩ := h
    obtain ⟨hmem, horder⟩ := List.mem_filter.mp hy
    obtain ⟨r', hr', hpair⟩ := Option.map_eq_some_iff.mp hfound
    obtain ⟨hresolve, hmarket⟩ := Option.filter_eq_some_iff.mp hr'
    cases hpair
    exact ⟨hmem, horder, hresolve, of_decide_eq_true hmarket⟩
  · intro h
    obtain ⟨hmem, horder, hresolve, hmarket⟩ := h
    refine ⟨x, List.mem_filter.mpr ⟨hmem, horder⟩, ?_⟩
    rw [hresolve, Option.filter_some, if_pos (decide_eq_true hmarket)]
    rfl

/-- Of what is removed, a limit order or a call order stands in the market of its last state. -/
theorem mem_ordersIn_lastWithId {removed : List Record} {ids : List ObjectId} {m : Market} {x : ObjectId} {r : Record} :
    (x, r) ∈ ordersIn (lastWithId removed) ids m ↔
      x ∈ ids ∧ (x = Kind.limitOrder.id x.number ∨ x = Kind.callOrder.id x.number) ∧
        (r.id = x ∧ ∃ before after, removed = before ++ r :: after ∧ ∀ r' ∈ after, r'.id ≠ x) ∧ r.market? = some m := by
  rw [mem_ordersIn, isOrder_iff, lastWithId_eq_some_iff]

/-- The orders among ids that do not resolve to an order, if any market is asked for. -/
def strays (s : Subscriptions) (resolve : ObjectId → Option Record) (ids : List ObjectId) : Nat :=
  if s.hasMarkets then (ids.filter isOrder).countP fun x => ((resolve x).bind Record.market?).isNone else 0

/-- An order as it is told. -/
def orderItem (whole : Bool) (e : ObjectId × Record) : Json := if whole then toJson e.2 else .str e.1.text

/-- What the session keeps of an order for the market it stands in, if it asked for that market. -/
def marketItem? (s : Subscriptions) (c : Change) (id : ObjectId) : Option (Market × Json) :=
  (order? c id).bind fun (m, r) =>
    if (s.marketCallback? m).isNone then none else some (m, if c.whole then toJson r else Json.str id.text)

/-- What is kept for a market with a callback is the orders in it. -/
theorem marketItem?_filter {s : Subscriptions} (c : Change) {m : Market} {callback : Callback}
    (hm : s.marketCallback? m = some callback) (id : ObjectId) :
    ((s.marketItem? c id).filter fun e => e.1 = m).map (·.2)
      = (((c.resolve id).filter fun r => r.market? = some m).map fun r => (id, r)).map (orderItem c.whole) := by
  rcases hr : c.resolve id with _ | r
  · simp [marketItem?, order?, hr]
  rcases hmarket : r.market? with _ | m'
  · simp [marketItem?, order?, hr, hmarket, Option.filter_some]
  by_cases heq : m' = m
  · subst heq
    simp [marketItem?, order?, hr, hmarket, hm, orderItem, Option.filter_some]
  · -- an order of another market is in the queue of that one, if in any
    have hright : (some r).filter (fun r => decide (r.market? = some m)) = none :=
      Option.filter_some_neg (by simpa [hmarket] using heq)
    have hleft : (s.marketItem? c id).filter (fun e => decide (e.1 = m)) = none := by
      simp only [marketItem?, order?, hr, hmarket, Option.bind_some, Option.map_some]
      split
      · rfl
      · exact Option.filter_some_neg (by simpa using heq)
    rw [hleft, hright]
    rfl

theorem queueFor_orders {s : Subscriptions} (c : Change) {m : Market} {callback : Callback}
    (hm : s.marketCallback? m = some callback) :
    MarketQueues.queueFor m ((c.ids.filter isOrder).filterMap (s.marketItem? c))
      = (ordersIn c.resolve c.ids m).map (orderItem c.whole) := by
  rw [MarketQueues.queueFor, ordersIn, List.filter_filterMap, List.map_filterMap, List.map_filterMap]
  exact List.filterMap_congr fun id _ => marketItem?_filter c hm id

theorem marketNotices_batches (s : Subscriptions) (c : Change) :
    (s.marketNotices c).batches =
      s.oneEach (ordersIn c.resolve c.ids) fun orders => .arr (orders.map (orderItem c.whole)) := by
  show s.marketBatches (.ofList ((c.ids.filter isOrder).filterMap (s.marketItem? c))) .arr = _
  rw [marketBatches_ofList]
  refine oneEach_congr ?_ ?_
  · intro m callback hm
    rw [queueFor_orders c hm, List.map_eq_nil_iff]
  · intro m callback hm
    rw [queueFor_orders c hm]

/-! ## All of a change -/

/-- What a set of changes comes to is its batch of updates, then the batches of the markets. -/
theorem changeNotices_batches (s : Subscriptions) (c : Change) :
    (s.changeNotices c).batches = s.updatesFor (s.tellable c) ++
      s.oneEach (ordersIn c.resolve c.ids) fun orders => .arr (orders.map (orderItem c.whole)) := by
  unfold changeNotices
  by_cases hids : c.ids.isEmpty = true
  · -- nothing changed, so there is nothing to tell and no order
    have hnothing : s.tellable c = [] := by rw [tellable, List.isEmpty_iff.mp hids]; rfl
    rw [if_pos hids, hnothing, updatesFor_nil, List.isEmpty_iff.mp hids]
    exact (List.filterMap_eq_nil_iff.mpr fun _ _ => rfl).symm
  · rw [if_neg hids]
    show (s.updateNotices c).batches ++ (if s.hasMarkets then s.marketNotices c else .none).batches = _
    rw [updateNotices_batches, ← marketNotices_batches]
    by_cases hm : s.hasMarkets = true
    · rw [if_pos hm]
    · rw [if_neg hm, marketNotices_batches, oneEach_nowhere hm]
      rfl

theorem changeNotices_anomalies (s : Subscriptions) (c : Change) :
    (s.changeNotices c).anomalies =
      s.unresolved (told? c) (s.interesting c.force c.impacted c.ids) + s.strays c.resolve c.ids := by
  have hstrays : (s.marketNotices c).anomalies =
      (c.ids.filter isOrder).countP fun x => ((c.resolve x).bind Record.market?).isNone := by
    refine List.countP_congr ?_
    intro x _
    unfold order?
    cases c.resolve x with
    | none => rfl
    | some r => simp
  rw [← updateNotices_anomalies]
  unfold changeNotices strays
  by_cases hids : c.ids.isEmpty = true
  · rw [if_pos hids, updateNotices_anomalies, List.isEmpty_iff.mp hids]
    simp [interesting, unresolved, Notices.none]
  · rw [if_neg hids]
    show (s.updateNotices c).anomalies + (if s.hasMarkets then s.marketNotices c else .none).anomalies = _
    by_cases hm : s.hasMarkets = true
    · rw [if_pos hm, if_pos hm, hstrays]
    · rw [if_neg hm, if_neg hm]
      rfl

/-! ## Changes told whole -/

/-- The records of a change that are of interest, as they resolve. -/
def updated (s : Subscriptions) (c : Change) : List Record := (c.ids.filter (s.isOfInterest c)).filterMap c.resolve

theorem tellable_whole (s : Subscriptions) {c : Change} (hc : c.whole = true) :
    s.tellable c = (s.updated c).map toJson := by
  have htold : told? c = fun id => (c.resolve id).map toJson := by
    funext id
    rw [told?, if_pos hc]
  rw [tellable, updated, htold, List.map_filterMap]

end Subscriptions

/-- The orders of a change that stand in a market, as they resolve. -/
def Change.orders (c : Change) (m : Market) : List Record :=
  ((c.ids.filter Subscriptions.isOrder).filterMap c.resolve).filter fun r => r.market? = some m

namespace Subscriptions

theorem orders_eq (c : Change) (m : Market) : c.orders m = (ordersIn c.resolve c.ids m).map (·.2) := by
  rw [Change.orders, ordersIn, List.filter_filterMap, List.map_filterMap]
  refine List.filterMap_congr ?_
  intro x _
  rw [Option.map_map]
  exact Option.map_id'.symm

/-- Every batch of a change told whole is records, as they resolve. -/
theorem payload_of_whole {s : Subscriptions} {c : Change} (hc : c.whole = true) {b : Batch}
    (hb : b ∈ (s.changeNotices c).batches) :
    (b.stream = .updates ∧ b.payload = toJson (s.updated c)) ∨
      (b.stream = .market ∧ ∃ m, s.marketCallback? m = some b.callback ∧ b.payload = toJson (c.orders m)) := by
  rw [changeNotices_batches] at hb
  rcases List.mem_append.mp hb with hupdate | hmarket
  · left
    obtain ⟨hstream, hpayload⟩ := mem_updatesFor hupdate
    exact ⟨hstream, hpayload.trans (congrArg Json.arr (s.tellable_whole hc))⟩
  · right
    obtain ⟨hstream, m, hcallback, hpayload⟩ := mem_oneEach hmarket
    refine ⟨hstream, m, hcallback, ?_⟩
    rw [hpayload, orders_eq]
    have hitem : orderItem c.whole = fun e => toJson e.2 := by
      funext e
      rw [orderItem, if_pos hc]
    rw [hitem]
    show _ = Json.arr (((ordersIn c.resolve c.ids m).map (·.2)).map toJson)
    rw [List.map_map]
    rfl

end Subscriptions

end LedgerWatch
