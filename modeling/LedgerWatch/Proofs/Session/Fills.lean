/-
  LedgerWatch.Proofs.Session.Fills — the fills of a block, sorted out by market.

  Two assets are exchanged in a fill, paid and received or the other way round, and their
  pair is what it is sorted by. `fillsBetween` are the fills of one pair, `acceptedFills`
  all those of two different assets whose market is wanted, both in the order they were
  applied in.

  - `queueFor_fills`: the queue of a pair that is wanted is its fills.
  - `perm_batches`: whatever is sorted out, the queues together hold each item once and
    nothing else.
  - `sortedOut_ofFills`: so the queues are the fills that are accepted, pair by pair.
-/

import LedgerWatch.Proofs.Session.Markets
import LedgerWatch.Proofs.Subscriptions.Markets

namespace LedgerWatch

/-! ## Fills and their pairs -/

/-- The two assets a fill exchanges. -/
def Operation.filled? : Operation → Option (Sym2 AssetId)
  | .fillOrder _ _ _ pays receives => some s(pays.asset, receives.asset)
  | .transfer .. | .limitOrderCreate .. | .limitOrderCancel .. | .callOrderUpdate .. => none

/-- Whether an operation is a fill of two different assets in a market that is wanted. -/
def Operation.isAccepted (wanted : Market → Bool) : Operation → Bool
  | .fillOrder _ _ _ pays receives => pays.asset ≠ receives.asset && wanted (.of pays.asset receives.asset)
  | .transfer .. | .limitOrderCreate .. | .limitOrderCancel .. | .callOrderUpdate .. => false

def AppliedOperation.fill (o : AppliedOperation) : Fill := ⟨o.op, o.outcome⟩

/-- The fills of a pair of assets, in the order they were applied. -/
def fillsBetween (pair : Sym2 AssetId) (applied : List AppliedOperation) : List Fill :=
  (applied.filter fun o => o.op.filled? = some pair).map AppliedOperation.fill

def acceptedFills (wanted : Market → Bool) (applied : List AppliedOperation) : List Fill :=
  (applied.filter (·.op.isAccepted wanted)).map AppliedOperation.fill

/-- The assets of a market, in no order. -/
def Market.pair (m : Market) : Sym2 AssetId := s(m.base, m.quote)

theorem Market.pair_of (a b : AssetId) : (Market.of a b).pair = s(a, b) := by
  rcases of_cases a b with ⟨-, h⟩ | ⟨-, h⟩
  · rw [h]
    rfl
  · rw [h]
    exact Sym2.eq_swap

/-- What is kept of an operation is its fill, if that is accepted. -/
theorem fill?_snd (wanted : Market → Bool) (o : AppliedOperation) :
    (o.fill? wanted).map (·.2) = if o.op.isAccepted wanted then some o.fill else none := by
  unfold AppliedOperation.fill? AppliedOperation.fill
  cases o.op with
  | transfer | limitOrderCreate | limitOrderCancel | callOrderUpdate => rfl
  | fillOrder fee order account pays receives =>
    simp only [Operation.fillMarket?, Operation.isAccepted, Market.isDegenerate_of]
    by_cases hsame : pays.asset = receives.asset
    · simp [hsame]
    · by_cases hw : wanted (.of pays.asset receives.asset) = true <;> simp [hsame, hw]

/-- It is kept for the market of the pair it is between. -/
theorem fill?_filter {wanted : Market → Bool} {a b : AssetId} (hab : a ≠ b) (hw : wanted (.of a b) = true)
    (o : AppliedOperation) :
    ((o.fill? wanted).filter fun e => e.1 = .of a b).map (·.2) =
      if o.op.filled? = some s(a, b) then some o.fill else none := by
  unfold AppliedOperation.fill? AppliedOperation.fill
  cases o.op with
  | transfer | limitOrderCreate | limitOrderCancel | callOrderUpdate => rfl
  | fillOrder fee order account pays receives =>
    simp only [Operation.fillMarket?, Operation.filled?, Option.some.injEq]
    by_cases hpair : s(pays.asset, receives.asset) = s(a, b)
    · have hof : Market.of pays.asset receives.asset = .of a b := Market.of_eq_iff.mpr hpair
      rw [if_pos hpair, hof, Market.isDegenerate_of, hw]
      simp [hab, Option.filter_some]
    · -- kept for another market or not at all
      have hof : Market.of pays.asset receives.asset ≠ .of a b := fun h => hpair (Market.of_eq_iff.mp h)
      rw [if_neg hpair]
      split
      · rfl
      · rw [Option.filter_some_neg (by simpa using hof)]
        rfl

/-- Nothing is kept for any other market. -/
theorem market_of_fill? {wanted : Market → Bool} {o : AppliedOperation} {e : Market × Fill}
    (h : o.fill? wanted = some e) : wanted e.1 = true ∧ ∃ a b, a ≠ b ∧ e.1 = .of a b := by
  unfold AppliedOperation.fill? at h
  cases hop : o.op with
  | transfer | limitOrderCreate | limitOrderCancel | callOrderUpdate =>
    rw [hop] at h
    contradiction
  | fillOrder fee order account pays receives =>
    rw [hop] at h
    simp only [Operation.fillMarket?, Market.isDegenerate_of] at h
    split at h
    · contradiction
    · rename_i hkept
      cases h
      simp only [Bool.or_eq_true, decide_eq_true_eq, Bool.not_eq_true', not_or, Bool.not_eq_false] at hkept
      exact ⟨hkept.2, pays.asset, receives.asset, hkept.1, rfl⟩

namespace MarketQueues

theorem queueFor_fills {wanted : Market → Bool} {a b : AssetId} (hab : a ≠ b) (hw : wanted (.of a b) = true)
    (applied : List AppliedOperation) :
    queueFor (.of a b) (applied.filterMap (·.fill? wanted)) = fillsBetween s(a, b) applied := by
  rw [queueFor, fillsBetween, List.filter_filterMap, List.map_filterMap, ← List.filterMap_eq_map, List.filterMap_filter]
  refine List.filterMap_congr ?_
  intro o _
  rw [fill?_filter hab hw]
  simp

theorem queueFor_unwanted {wanted : Market → Bool} {m : Market}
    (h : wanted m = false ∨ ¬∃ a b, a ≠ b ∧ m = .of a b) (applied : List AppliedOperation) :
    queueFor m (applied.filterMap (·.fill? wanted)) = [] := by
  rw [queueFor, List.map_eq_nil_iff, List.filter_eq_nil_iff]
  intro e he hm
  obtain ⟨o, -, ho⟩ := List.mem_filterMap.mp he
  obtain ⟨hwanted, hpair⟩ := market_of_fill? ho
  rw [of_decide_eq_true hm] at hwanted hpair
  rcases h with h | h
  · rw [h] at hwanted
    contradiction
  · exact h hpair

/-! ## All that is sorted out -/

/-- An item more in the queue of a key is an item more in all. -/
theorem perm_place {κ α : Type} [Ranked κ] (k : κ) (x : α) {es : List (κ × List α)} (h : es.Pairwise Before) :
    ((SortedMap.place k ((SortedMap.lookup k es).getD [] ++ [x]) es).flatMap (·.2)).Perm (x :: es.flatMap (·.2)) := by
  induction es with
  | nil => exact .refl _
  | cons e es ih =>
    obtain ⟨k', xs⟩ := e
    obtain ⟨hfirst, hrest⟩ := List.pairwise_cons.mp h
    unfold SortedMap.place
    by_cases hlt : rank k < rank k'
    · -- no queue yet
      have hnone : SortedMap.lookup k ((k', xs) :: es) = none := by
        refine SortedMap.lookup_of_before ?_
        intro e he
        rcases List.mem_cons.mp he with rfl | he
        · exact hlt
        · exact Nat.lt_trans hlt (hfirst e he)
      rw [if_pos hlt, hnone]
      exact .refl _
    · rw [if_neg hlt, SortedMap.lookup]
      by_cases heq : rank k = rank k'
      · rw [if_pos heq, if_pos heq.symm, Option.getD_some, List.flatMap_cons, List.flatMap_cons, List.append_assoc]
        exact List.perm_middle
      · rw [if_neg heq, if_neg (Ne.symm heq), List.flatMap_cons, List.flatMap_cons]
        exact ((ih hrest).append_left xs).trans List.perm_middle

/-- The queues together hold each item once and nothing else. -/
theorem perm_batches {α : Type} (items : List (Market × α)) :
    ((ofList items).batches.flatMap (·.2)).Perm (items.map (·.2)) := by
  induction items using List.reverseRecOn with
  | nil => exact .refl _
  | append_singleton items e ih =>
    rw [ofList_snoc, List.map_append]
    have hpush : (((ofList items).push e.1 e.2).batches.flatMap (·.2)).Perm (e.2 :: (ofList items).batches.flatMap (·.2)) :=
      perm_place e.1 e.2 (ofList items).queues.sorted
    exact (hpush.trans (ih.cons e.2)).trans (List.perm_append_singleton _ _).symm

/-- Queues that are the accepted fills of a list of operations, sorted out by pairs of different assets. -/
structure SortedOut (q : MarketQueues Fill) (wanted : Market → Bool) (applied : List AppliedOperation) : Prop where
  queue : ∀ a b, a ≠ b → q.get? (.of a b) =
    if wanted (.of a b) = true ∧ fillsBetween s(a, b) applied ≠ [] then some (fillsBetween s(a, b) applied) else none
  absent : ∀ m, (¬∃ a b, a ≠ b ∧ m = .of a b) → q.get? m = none
  listed : ∀ m fills, (m, fills) ∈ q.batches ↔ q.get? m = some fills
  nonempty : ∀ e ∈ q.batches, e.2 ≠ []
  increasing : q.batches.Pairwise fun e e' => e.1.Precedes e'.1
  once : (q.batches.flatMap (·.2)).Perm (acceptedFills wanted applied)
  total : (q.batches.flatMap (·.2)).length = applied.countP (·.op.isAccepted wanted)

theorem kept_fills (wanted : Market → Bool) (applied : List AppliedOperation) :
    (applied.filterMap (·.fill? wanted)).map (·.2) = acceptedFills wanted applied := by
  rw [acceptedFills, List.map_filterMap, ← List.filterMap_eq_map, List.filterMap_filter]
  exact List.filterMap_congr fun o _ => fill?_snd wanted o

theorem sortedOut_ofFills (wanted : Market → Bool) (applied : List AppliedOperation) :
    SortedOut (.ofFills applied wanted) wanted applied := by
  have hget : ∀ m, (ofFills applied wanted).get? m =
      if queueFor m (applied.filterMap (·.fill? wanted)) = [] then none
      else some (queueFor m (applied.filterMap (·.fill? wanted))) :=
    fun m => get?_ofList _ m
  have honce : ((ofFills applied wanted).batches.flatMap (·.2)).Perm (acceptedFills wanted applied) := by
    rw [← kept_fills]
    exact perm_batches _
  refine ⟨?_, ?_, fun m fills => SortedMap.mem_entries_iff _, ?_, ?_, honce, ?_⟩
  · intro a b hab
    rw [hget]
    by_cases hw : wanted (.of a b) = true
    · rw [queueFor_fills hab hw]
      by_cases hnil : fillsBetween s(a, b) applied = [] <;> simp [hw, hnil]
    · rw [queueFor_unwanted (.inl (Bool.eq_false_of_not_eq_true hw)), if_pos rfl, if_neg fun h => hw h.1]
  · intro m hm
    rw [hget, queueFor_unwanted (.inr hm), if_pos rfl]
  · rintro ⟨m, fills⟩ he hnil
    have hsome := (SortedMap.mem_entries_iff _).mp he
    have hqueue := (hget m).symm.trans hsome
    split at hqueue
    · contradiction
    · rename_i hne
      exact hne ((Option.some.inj hqueue).trans hnil)
  · exact (ofFills applied wanted).queues.sorted.imp Market.precedes_of_rank
  · rw [honce.length_eq, acceptedFills, List.length_map, List.countP_eq_length_filter]

end MarketQueues

namespace Subscriptions

/-- Of a block a session is told the fills of each pair it asks for that has any. -/
theorem blockNotices_batches {s : Subscriptions} (h : Canonical s) (l : Ledger) (block : Block) :
    (blockNotices l s block).batches =
      (s.block.map fun callback => (⟨.blockApplied, callback, .str block.id.text⟩ : Batch)).toList ++
        s.oneEach (fun m => fillsBetween m.pair l.applied) fun fills => .arr (fills.map Fill.toJson) := by
  have hfills : s.marketBatches (.ofFills l.applied fun m => (s.marketCallback? m).isSome)
      (fun items => .arr (items.map Fill.toJson)) =
        s.oneEach (fun m => fillsBetween m.pair l.applied) fun fills => .arr (fills.map Fill.toJson) := by
    have hqueue : ∀ m callback, s.marketCallback? m = some callback →
        MarketQueues.queueFor m (l.applied.filterMap (·.fill? fun m => (s.marketCallback? m).isSome)) =
          fillsBetween m.pair l.applied := by
      intro m callback hm
      have hwanted : (s.marketCallback? m).isSome = true := Option.isSome_iff_exists.mpr ⟨callback, hm⟩
      obtain ⟨a, b, hab, rfl⟩ := h.of_callback hm
      rw [MarketQueues.queueFor_fills hab hwanted, Market.pair_of]
    refine (marketBatches_ofList s _ _).trans (oneEach_congr ?_ ?_)
    · intro m callback hm
      rw [hqueue m callback hm]
    · intro m callback hm
      rw [hqueue m callback hm]
  unfold blockNotices
  dsimp only
  congr 1
  · cases s.block <;> rfl
  · by_cases hm : s.hasMarkets = true
    · rw [if_pos hm, hfills]
    · rw [if_neg hm, oneEach_nowhere hm]

end Subscriptions

end LedgerWatch
