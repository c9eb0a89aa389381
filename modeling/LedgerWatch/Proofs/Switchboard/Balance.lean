/-
  LedgerWatch.Proofs.Switchboard.Balance — the counters of deliveries balance.

  `deliveries_balance`: for a pool with any number of sessions and for a node, in every
  state a run leads to, and for each stream,

      taken on = succeeded + failed + dropped, session closed + queued + discarded
      offered  = taken on + dropped, queue full + dropped, workers stopped + late

  and every offer and every delivery counts on its own stream alone. A node offers by its
  signals, and what these offer is what the outcomes of the run show (`offers_run`).
-/

import LedgerWatch.Proofs.Delivery.Balance
import LedgerWatch.Proofs.Switchboard.Order

namespace LedgerWatch.Switchboard

/-- The jobs offered in a run for a session that is closed by then. -/
def lateOffers (b : Switchboard) : List Event → List Job
  | [] => []
  | e :: es => (offersOf (b.step e).1).filter (fun j => !b.pool.isOpen j.session) ++ (b.step e).2.lateOffers es

/-! ## The pool is offered what the signals come to -/

theorem offered_poolOffers (b : Switchboard) (sig : Signal) (id : Nat) :
    Pool.offered (b.poolOffers sig id) = (b.batchesFor sig id).map (⟨id, ·⟩) := by
  unfold Pool.offered poolOffers
  rw [List.flatMap_map, List.map_eq_flatMap]
  rfl

theorem offers_step (b : Switchboard) (e : Event) : Pool.offered (b.poolEvents e) = offersOf (b.step e).1 := by
  cases e with
  | signal sig =>
    show Pool.offered (b.present.flatMap (b.poolOffers sig)) = (b.signal sig).1.map (·.job)
    rw [jobs_signal, Pool.offered, List.flatMap_assoc]
    exact congrArg b.present.flatMap (funext (offered_poolOffers b sig))
  | signalTo id sig =>
    show Pool.offered (b.poolOffers sig id) = _
    rw [offered_poolOffers]
    simp only [step]
    split
    · rename_i hnone
      simp only [batchesFor, hnone, offersOf, List.map_nil]
    · exact (jobs_tell b sig id).symm
  | drop id =>
    simp only [poolEvents, step]
    split <;> rfl
  | close id =>
    simp only [poolEvents, step, SortedMap.contains]
    obtain h | ⟨s, h⟩ := Option.eq_none_or_eq_some (b.sessions.get? id)
    · simp only [h]
      rfl
    · simp only [h]
      rfl
  | request id r =>
    simp only [poolEvents, step]
    split <;> rfl
  | shutdown =>
    show Pool.offered (b.present.map .close ++ [.shutdown]) = []
    simp [Pool.offered, Pool.Event.offered]
  | openSession | insert r | erase id | apply ops | work w outcome | drain t => rfl

theorem offers_run (b : Switchboard) (es : List Event) :
    Pool.offered (b.poolRun es) = (b.run es).1.flatMap offersOf := by
  induction es generalizing b with
  | nil => rfl
  | cons e es ih =>
    show Pool.offered (b.poolEvents e ++ (b.step e).2.poolRun es) =
      ((b.step e).1 :: ((b.step e).2.run es).1).flatMap offersOf
    rw [Pool.offered, List.flatMap_append, List.flatMap_cons, ← ih, ← offers_step]
    rfl

/-! ## What comes too late -/

/-- The offers of one signal find the sessions as open or closed as they were before it. -/
theorem late_poolOffers (b : Switchboard) (sig : Signal) (ids : List Nat) :
    b.pool.late (ids.flatMap (b.poolOffers sig)) =
      (Pool.offered (ids.flatMap (b.poolOffers sig))).filter fun j => !b.pool.isOpen j.session := by
  refine Pool.late_of_open fun pe hpe i => ?_
  obtain ⟨id, -, hid⟩ := List.mem_flatMap.mp hpe
  obtain ⟨batch, -, rfl⟩ := List.mem_map.mp hid
  rfl

theorem late_step (b : Switchboard) (e : Event) :
    b.pool.late (b.poolEvents e) = (offersOf (b.step e).1).filter fun j => !b.pool.isOpen j.session := by
  rw [← offers_step]
  -- what is not a signal offers nothing
  have hnone : Pool.offered (b.poolEvents e) = [] → b.pool.late (b.poolEvents e) =
      (Pool.offered (b.poolEvents e)).filter fun j => !b.pool.isOpen j.session := by
    intro h
    rw [Pool.late_of_none h, h]
    rfl
  cases e with
  | signal sig => exact late_poolOffers b sig b.present
  | signalTo id sig =>
    have hone := late_poolOffers b sig [id]
    rwa [List.flatMap_singleton] at hone
  | drop id | close id =>
    refine hnone ?_
    simp only [poolEvents]
    split <;> rfl
  | shutdown => exact hnone (offers_step b .shutdown)
  | openSession | request id r | insert r | erase id | apply ops | work w outcome | drain t => exact hnone rfl

theorem late_run (b : Switchboard) (es : List Event) : b.pool.late (b.poolRun es) = b.lateOffers es := by
  induction es generalizing b with
  | nil => rfl
  | cons e es ih =>
    rw [poolRun, Pool.late_append, late_step, pool_step, ih]
    rfl

/-! ## The balance -/

/-- A node's counters are its pool's, so they balance with what its signals come to. -/
theorem balanced_start {settings : Settings} {hasRuntime : Bool} {b : Switchboard}
    (h : Switchboard.start settings hasRuntime = .ok b) (es : List Event) :
    Pool.Balanced (b.run es).2.pool (.ofOuts (b.run es).1) ((b.run es).1.flatMap offersOf) (b.lateOffers es) := by
  have hzero : b.pool.counts = .zero := by
    obtain ⟨p, hp, rfl⟩ := start_ok h
    exact congrArg Pool.counts (Pool.start_ok hp).2
  have hbalanced := Pool.balanced_run (books_start h) hzero (b.poolRun es)
  rwa [run_poolRun, offers_run, late_run] at hbalanced

/-- Whatever sessions open and close, ask and are told of, and however the workers take their turns, the counters
of each stream balance: with the jobs that are queued and those that were discarded, and with the offers made. -/
theorem deliveries_balance :
    (∀ settings hasRuntime p, Pool.start settings hasRuntime = .ok p → ∀ es,
      Pool.Balanced (p.run es).2 (p.run es).1 (Pool.offered es) (p.late es)) ∧
    (∀ settings hasRuntime b, Switchboard.start settings hasRuntime = .ok b → ∀ es,
      Pool.Balanced (b.run es).2.pool (.ofOuts (b.run es).1) ((b.run es).1.flatMap offersOf) (b.lateOffers es)) ∧
    (∀ (p : Pool) (i : Nat) (batch : Batch), Pool.SameBut batch.stream p.counts (p.offer i batch).2.counts) ∧
    ∀ (p : Pool) (w : Nat) (outcome : Option DeliveryError),
      (p.work w outcome).2.counts = p.counts ∧ (p.work w outcome).1 = ⟨[], [], []⟩ ∨
        ∃ j, (p.work w outcome).1.called ++ (p.work w outcome).1.skipped = [j] ∧
          Pool.SameBut j.batch.stream p.counts (p.work w outcome).2.counts := by
  refine ⟨fun settings hasRuntime p hp es => ?_, fun settings hasRuntime b hb es => ?_, Pool.sameBut_offer,
    Pool.sameBut_work⟩
  · exact Pool.balanced_run (Pool.books_start hp) (congrArg Pool.counts (Pool.start_ok hp).2) es
  · exact balanced_start hb es

/-- One of each fate: a call that fails, a refusal by a full queue, a job of a session closed meanwhile, a batch that
comes too late, a job that goes down with the workers, a refusal by workers that have stopped. -/
def everyFate : List Pool.Event :=
  let batch : Batch := ⟨.pendingTransactions, ⟨"a", none⟩, .null⟩
  [.openSession, .openSession, .offer 1 batch, .offer 2 batch, .work 0 (some .disconnected), .offer 1 batch, .close 1,
    .work 0 none, .offer 1 batch, .offer 2 batch, .shutdown, .offer 2 batch]

theorem deliveries_balance_of_every_fate :
    (∃ p, Pool.start ⟨1, 1⟩ true = .ok p ∧
      Pool.Balanced (p.run everyFate).2 (p.run everyFate).1 (Pool.offered everyFate) (p.late everyFate) ∧
      (p.run everyFate).2.counts.scheduled.get .pendingTransactions = 3 ∧
      (p.run everyFate).1.discarded.length = 1 ∧ (p.late everyFate).length = 1) ∧
    ∃ b, Switchboard.start .standard true = .ok b ∧
      Pool.Balanced (b.run twoSubscribers).2.pool (.ofOuts (b.run twoSubscribers).1)
        ((b.run twoSubscribers).1.flatMap offersOf) (b.lateOffers twoSubscribers) ∧
      (b.run twoSubscribers).2.pool.counts.sessionClosed.get .pendingTransactions = 1 := by
  obtain ⟨hpool, hnode, -⟩ := deliveries_balance
  refine ⟨⟨_, rfl, hpool ⟨1, 1⟩ true _ rfl everyFate, ?_⟩, _, rfl, hnode .standard true _ rfl twoSubscribers, ?_⟩
  · decide +kernel
  · decide +kernel

end LedgerWatch.Switchboard
