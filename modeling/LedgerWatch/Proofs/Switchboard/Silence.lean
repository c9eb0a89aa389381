/-
  LedgerWatch.Proofs.Switchboard.Silence — a session that was closed or dropped is silent.

  `silent_once_closed`: take any run of a node from its start, close a session that is
  held or let its connection drop it, and go on with any events whatever: requests of the
  closed session, signals, turns of workers, a shutdown. No callback is called for it any
  more. What was queued for it is skipped, and counted, as workers come to it, and
  whatever is offered for it is refused and leaves the pool as it was.
-/

import LedgerWatch.Proofs.Delivery.Silence
import LedgerWatch.Proofs.Switchboard.Order

namespace LedgerWatch.Switchboard

/-- A session is closed, or its connection lets go of it. -/
def ends (i : Nat) : Event → Prop
  | .close k | .drop k => k = i
  | _ => False

/-- The event itself only closes: the queues stay as they are. -/
theorem step_ends {b : Switchboard} {i : Nat} {e : Event} (he : ends i e) (hi : b.sessions.contains i = true) :
    (b.step e).2.pool = b.pool.close i := by
  cases e with
  | close k =>
    obtain rfl : k = i := he
    obtain ⟨s, hs⟩ := Option.isSome_iff_exists.mp hi
    simp only [step, hs]
    rfl
  | drop k =>
    obtain rfl : k = i := he
    simp only [step, hi, if_true]
    rfl
  | openSession | request | insert | erase | apply | signal | signalTo | work | drain | shutdown => cases he

theorem not_turn_of_ends {i : Nat} {e : Event} (he : ends i e) : isTurn e = false := by
  cases e with
  | close k | drop k => rfl
  | openSession | request | insert | erase | apply | signal | signalTo | work | drain | shutdown => cases he

theorem silent_run {b : Switchboard} {l : Log} (h : Pool.Books b.pool l) {i : Nat} (hi : b.pool.isOpen i = false)
    (es : List Event) : Pool.Silent i b.pool (.ofOuts (b.run es).1) (b.run es).2.pool := by
  obtain ⟨pes, hpes⟩ := pool_run b es
  have hsilent := Pool.silent_run h hi pes
  rwa [hpes] at hsilent

/-- Nothing that happens after a session was closed or dropped ever calls a callback for it. -/
theorem silent_once_closed (settings : Settings) (hasRuntime : Bool) (b : Switchboard)
    (hstart : Switchboard.start settings hasRuntime = .ok b) (es : List Event) (i : Nat) (e : Event)
    (hheld : (b.run es).2.sessions.contains i = true) (he : ends i e) :
    let c := ((b.run es).2.step e).2
    (Log.ofOut ((b.run es).2.step e).1).called = [] ∧
      c.pool.queued = (b.run es).2.pool.queued ∧
      ∀ later, Pool.Silent i c.pool (.ofOuts (c.run later).1) (c.run later).2.pool := by
  intro c
  have hpool : c.pool = (b.run es).2.pool.close i := step_ends he hheld
  have hbooks : Pool.Books c.pool (.ofOuts (b.run es).1) := by
    have h := Pool.books_close (books_run (books_start hstart) es) i
    rwa [hpool, ← Log.append_none (Log.ofOuts _)]
  refine ⟨(log_of_not_turn (not_turn_of_ends he)).1, by rw [hpool]; rfl, fun later => silent_run hbooks ?_ later⟩
  rw [hpool]
  exact Pool.isOpen_close _ i

/-- A subscriber with one job queued when it is closed; it asks for more afterwards, and more is signalled. -/
def closedSubscriber : List Event :=
  [.openSession, .request 1 (.subscribePending (some ⟨"a", none⟩)), .signal (.pendingTransaction ⟨0, 0, 0, [], []⟩)]

def afterClose : List Event :=
  [.request 1 (.subscribePending (some ⟨"b", none⟩)), .signal (.pendingTransaction ⟨1, 0, 0, [], []⟩),
    .drain .faithful, .signal (.pendingTransaction ⟨2, 0, 0, [], []⟩), .drain .faithful]

theorem silent_once_closed_of_one :
    ∃ b, Switchboard.start .standard true = .ok b ∧ (b.run closedSubscriber).2.sessions.contains 1 = true ∧
      ends 1 (.close 1) ∧
      let c := ((b.run closedSubscriber).2.step (.close 1)).2
      Pool.Silent 1 c.pool (.ofOuts (c.run afterClose).1) (c.run afterClose).2.pool ∧
        c.pool.queued.length = 1 ∧ (Log.ofOuts (c.run afterClose).1).skipped.length = 1 :=
  ⟨_, rfl, by decide +kernel, rfl,
    (silent_once_closed .standard true _ rfl closedSubscriber 1 (.close 1) (by decide +kernel) rfl).2.2 afterClose,
    by decide +kernel, by decide +kernel⟩

end LedgerWatch.Switchboard
