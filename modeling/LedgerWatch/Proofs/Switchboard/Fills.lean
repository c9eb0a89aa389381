/-
  LedgerWatch.Proofs.Switchboard.Fills — what the fills of a block come to.

  Whatever is asked for, the fills of a list of operations are sorted out without loss:
  each one that is accepted is in the queue of its pair, in the order of the list, and
  there is nothing else. So when a block is applied, a session of any run is told of the
  block, if it has a callback for that, and then of each pair of assets it asks for that
  was traded, in the order of the pairs (`fills_exact`). What was traded is what the ledger
  has as applied then, whatever is in the block.
-/

import LedgerWatch.Proofs.Session.Fills
import LedgerWatch.Proofs.Switchboard.Markets

namespace LedgerWatch.Switchboard

open Subscriptions

/-- Fills are partitioned by their pairs of assets, those that are wanted, and of each block that is applied every
session is told just the parts it asks for. -/
theorem fills_exact :
    (∀ wanted applied, MarketQueues.SortedOut (.ofFills applied wanted) wanted applied) ∧
    ∀ settings hasRuntime b, Switchboard.start settings hasRuntime = .ok b → ∀ es id s,
      let c := (b.run es).2
      c.sessions.get? id = some s → ∀ block,
        (c.tell (.blockApplied block) id).1.map (·.job) =
            ((s.block.map fun callback => (⟨.blockApplied, callback, .str block.id.text⟩ : Batch)).toList ++
              s.oneEach (fun m => fillsBetween m.pair c.ledger.applied)
                fun fills => .arr (fills.map Fill.toJson)).map (⟨id, ·⟩) ∧
          s.markets.keys.Pairwise Market.Precedes ∧
          ∀ m callback, s.marketCallback? m = some callback → m.base.number < m.quote.number := by
  refine ⟨MarketQueues.sortedOut_ofFills, ?_⟩
  intro settings hasRuntime b h es id s c hs block
  have hcanonical : Canonical s := canonical_run h es hs
  refine ⟨?_, increasing_markets s.markets, fun m callback => hcanonical.ordered⟩
  have hbatches : c.batchesFor (.blockApplied block) id = (blockNotices c.ledger s block).batches := by
    unfold batchesFor
    rw [hs]
    rfl
  rw [jobs_tell, hbatches, blockNotices_batches hcanonical]

/-- A fill of so many of one asset for as many of another. -/
def filled (pays receives : AssetId) (amount : Int64) : Operation :=
  .fillOrder ⟨0, ⟨0⟩⟩ (Kind.limitOrder.id 7) ⟨5⟩ ⟨amount, pays⟩ ⟨amount, receives⟩

def appliedAs (position : UInt16) (op : Operation) : AppliedOperation :=
  ⟨Kind.operation.id position.toUInt64, op, .void, 10, 0, position, 0⟩

/-- Two fills of a pair, the other way round each time; one of another pair, one of an asset for itself and a
transfer come in between. -/
def traded : List AppliedOperation :=
  [appliedAs 0 (filled ⟨1⟩ ⟨2⟩ 10), appliedAs 1 (filled ⟨1⟩ ⟨3⟩ 20), appliedAs 2 (filled ⟨1⟩ ⟨1⟩ 30),
    appliedAs 3 (.transfer ⟨0, ⟨0⟩⟩ ⟨5⟩ ⟨6⟩ ⟨1, ⟨0⟩⟩), appliedAs 4 (filled ⟨2⟩ ⟨1⟩ 40)]

/-- One of the pairs is asked for, the other way round again. -/
def tradeWatcher : List Event :=
  [.apply traded, .openSession, .request 1 (.subscribeBlocks (some ⟨"a", none⟩)),
    .request 1 (.subscribeMarket ⟨"b", none⟩ ⟨2⟩ ⟨1⟩)]

def emptyBlock : Block := ⟨⟨.replicate 20 0⟩, 0, ⟨1, 6, 1⟩, []⟩

theorem fills_exact_of_two :
    let fills : List Fill := [⟨filled ⟨1⟩ ⟨2⟩ 10, .void⟩, ⟨filled ⟨2⟩ ⟨1⟩ 40, .void⟩]
    (MarketQueues.ofFills traded fun _ => true).get? (.of ⟨1⟩ ⟨2⟩) = some fills ∧
      ∃ b s, Switchboard.start .standard true = .ok b ∧ (b.run tradeWatcher).2.sessions.get? 1 = some s ∧
        ((b.run tradeWatcher).2.tell (.blockApplied emptyBlock) 1).1.map (·.job) =
          [⟨1, .blockApplied, ⟨"a", none⟩, .str emptyBlock.id.text⟩,
            ⟨1, .market, ⟨"b", none⟩, .arr (fills.map Fill.toJson)⟩] := by
  intro fills
  have hfills : fillsBetween s(⟨1⟩, ⟨2⟩) traded = fills := by decide +kernel
  constructor
  · rw [(fills_exact.1 (fun _ => true) traded).queue ⟨1⟩ ⟨2⟩ (by decide), hfills]
    exact if_pos ⟨rfl, by nofun⟩
  · refine ⟨_, _, rfl, rfl, ?_⟩
    have hasked : fillsBetween (Market.of ⟨2⟩ ⟨1⟩).pair traded = fills := by
      rw [Market.pair_of, Sym2.eq_swap, hfills]
    have hone : ∀ s : Subscriptions, s.markets.entries = [(.of ⟨2⟩ ⟨1⟩, ⟨"b", none⟩)] →
        s.oneEach (fun m => fillsBetween m.pair traded) (fun fills => .arr (fills.map Fill.toJson)) =
          [⟨.market, ⟨"b", none⟩, .arr (fills.map Fill.toJson)⟩] := by
      intro s hmarkets
      rw [oneEach_single hmarkets (by rw [hasked]; nofun), hasked]
    have hjobs := (fills_exact.2 .standard true _ rfl tradeWatcher 1 _ rfl emptyBlock).1
    exact hjobs.trans (congrArg (fun batches => List.map (fun x => (⟨1, x⟩ : Job)) (_ ++ batches)) (hone _ rfl))

end LedgerWatch.Switchboard
