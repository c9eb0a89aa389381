/-
  LedgerWatch.Proofs.Switchboard.Order — each session is called in the order of its signals.

  `called_in_order`: for a pool with any number of sessions and for a node, after every
  run from the start,

      taken on = called, then skipped, then discarded, then waiting

  holds for each session, as lists of jobs with the callback and the payload of the
  moment they were offered. It is a worker's turn that calls, never a request or a signal
  itself, and a run of all workers leaves nothing queued.
-/

import LedgerWatch.Proofs.Delivery.Order
import LedgerWatch.Proofs.Switchboard.Runs

namespace LedgerWatch.Switchboard

/-- Whether workers have their turn. -/
def isTurn : Event → Bool
  | .work _ _ | .drain _ => true
  | .openSession | .drop _ | .request _ _ | .close _ | .insert _ | .erase _ | .apply _ | .signal _ | .signalTo _ _
  | .shutdown => false

theorem books_start {settings : Settings} {hasRuntime : Bool} {b : Switchboard}
    (h : Switchboard.start settings hasRuntime = .ok b) : Pool.Books b.pool .none := by
  obtain ⟨p, hp, rfl⟩ := start_ok h
  exact Pool.books_start hp

theorem books_run {b : Switchboard} (h : Pool.Books b.pool .none) (es : List Event) :
    Pool.Books (b.run es).2.pool (.ofOuts (b.run es).1) := by
  obtain ⟨pes, hpes⟩ := pool_run b es
  have hbooks := Pool.books_run h pes
  rwa [hpes, Log.none_append] at hbooks

/-- A node's step calls nothing itself unless it is a worker's turn. -/
theorem log_of_not_turn {b : Switchboard} {e : Event} (h : isTurn e = false) :
    (Log.ofOut (b.step e).1).called = [] ∧ (Log.ofOut (b.step e).1).skipped = [] := by
  cases e with
  | work w outcome | drain t => contradiction
  | drop id => simp only [step]; split <;> exact ⟨rfl, rfl⟩
  | request id r => simp only [step]; split <;> exact ⟨rfl, rfl⟩
  | close id => simp only [step]; split <;> exact ⟨rfl, rfl⟩
  | signalTo id sig => simp only [step]; split <;> exact ⟨rfl, rfl⟩
  | openSession | insert r | erase id | apply ops | signal sig | shutdown => exact ⟨rfl, rfl⟩

theorem heeds_step (b : Switchboard) (e : Event) : Pool.Heeds b.pool (.ofOut (b.step e).1) := by
  cases h : isTurn e with
  | false => exact Pool.heeds_nothing b.pool (log_of_not_turn h).1 (log_of_not_turn h).2
  | true =>
    cases e with
    | work w outcome => exact Pool.heeds_step b.pool (.work w outcome)
    | drain t => exact Pool.heeds_step b.pool (.drain t)
    | openSession | drop id | request id r | close id | insert r | erase id | apply ops | signal sig
    | signalTo id sig | shutdown => contradiction

theorem called_by_turn {b : Switchboard} {e : Event} (h : (Log.ofOut (b.step e).1).called ≠ []) : isTurn e = true := by
  cases ht : isTurn e with
  | true => rfl
  | false => exact absurd (log_of_not_turn ht).1 h

/-- In whatever order sessions open, close, ask and are told of the ledger, each session's jobs are called in
the order they were offered, once each, as long as it is open when their turn comes. -/
theorem called_in_order :
    (∀ settings hasRuntime p, Pool.start settings hasRuntime = .ok p → ∀ es, let q := (p.run es).2
      Pool.Books q (p.run es).1 ∧
      (∀ e, Pool.Heeds q (q.step e).1 ∧ ((q.step e).1.called ≠ [] → e.isTurn = true)) ∧
      ∀ t, q.phase = .running → (q.step (.drain t)).2.queued = []) ∧
    (∀ settings hasRuntime b, Switchboard.start settings hasRuntime = .ok b → ∀ es, let c := (b.run es).2
      Pool.Books c.pool (.ofOuts (b.run es).1) ∧
      (∀ e, Pool.Heeds c.pool (.ofOut (c.step e).1) ∧
        ((Log.ofOut (c.step e).1).called ≠ [] → isTurn e = true)) ∧
      (∀ t, c.pool.phase = .running → (c.step (.drain t)).2.pool.queued = []) ∧
      ∀ sig, (c.signal sig).1.map (·.job) = (c.present.flatMap fun id => (c.batchesFor sig id).map (⟨id, ·⟩)) ∧
        ∀ id, (c.tell sig id).1.map (·.job) = (c.batchesFor sig id).map (⟨id, ·⟩)) := by
  refine ⟨fun settings hasRuntime p hp es => ⟨?_, fun e => ?_, fun t hrun => ?_⟩,
    fun settings hasRuntime b hb es => ⟨?_, fun e => ?_, fun t hrun => ?_, fun sig => ?_⟩⟩
  · have hbooks := Pool.books_run (Pool.books_start hp) es
    rwa [Log.none_append] at hbooks
  · exact ⟨Pool.heeds_step _ e, Pool.called_by_turn⟩
  · exact Pool.drain_leaves_nothing hrun t
  · exact books_run (books_start hb) es
  · exact ⟨heeds_step _ e, called_by_turn⟩
  · exact Pool.drain_leaves_nothing hrun t
  · exact ⟨jobs_signal _ sig, fun id => jobs_tell _ sig id⟩

/-- Two subscribers that share a worker; the second is closed before it has its turn. -/
def twoSubscribers : List Event :=
  [.openSession, .openSession, .openSession, .request 1 (.subscribePending (some ⟨"a", none⟩)),
    .request 3 (.subscribePending (some ⟨"b", none⟩)), .signal (.pendingTransaction ⟨0, 0, 0, [], []⟩), .close 3,
    .work 1 none, .work 1 none]

theorem called_in_order_of_two :
    (∃ p, Pool.start .standard true = .ok p ∧ Pool.Books (p.run [.shutdown]).2 (p.run [.shutdown]).1) ∧
    ∃ b, Switchboard.start .standard true = .ok b ∧
      Pool.Books (b.run twoSubscribers).2.pool (.ofOuts (b.run twoSubscribers).1) ∧
      (Log.ofOuts (b.run twoSubscribers).1).called.map (·.session) = [1] ∧
      (Log.ofOuts (b.run twoSubscribers).1).skipped.map (·.session) = [3] := by
  obtain ⟨hpool, hnode⟩ := called_in_order
  refine ⟨⟨_, rfl, (hpool .standard true _ rfl [.shutdown]).1⟩, _, rfl,
    (hnode .standard true _ rfl twoSubscribers).1, ?_, ?_⟩
  · decide +kernel
  · decide +kernel

end LedgerWatch.Switchboard
