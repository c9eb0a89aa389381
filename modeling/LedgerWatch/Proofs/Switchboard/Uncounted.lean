/-
  LedgerWatch.Proofs.Switchboard.Uncounted — the batches no counter tells of.

  A batch that never reaches a callback is meant to be counted as dropped. Two kinds are
  not: a job that is still queued when the node is shut down goes down with its worker
  unseen, and a batch offered for a session that is closed is refused without a count,
  while a job taken from its queue for such a session, a refusal by a full queue and one
  by workers that have stopped are all counted.

  `uncounted_batches`: once a node has been shut down these are all that is missing, and
  the counters add up to the offers exactly if there are none. `lost_unseen`: a job queued
  at the shutdown and a session that asks again after it was closed, and no counter moves.
-/

import LedgerWatch.Proofs.Switchboard.Balance
import LedgerWatch.Proofs.Switchboard.Shutdown

namespace LedgerWatch

/-- The batches of a stream that were called or are counted as dropped. -/
def DeliveryCounts.accounted (c : DeliveryCounts) (s : Stream) : Nat :=
  c.delivered.get s + c.failures.get s + c.queueFull.get s + c.poolStopped.get s + c.sessionClosed.get s

theorem onStream_eq_zero_iff (s : Stream) (jobs : List Job) : onStream s jobs = 0 ↔ ∀ j ∈ jobs, j.batch.stream ≠ s := by
  simp [onStream, List.countP_eq_zero]

namespace Switchboard

section Start

variable {settings : Settings} {hasRuntime : Bool} {b : Switchboard}
  (h : Switchboard.start settings hasRuntime = .ok b)
include h

/-- Until the shutdown nothing is discarded. -/
theorem discarded_until {es : List Event} (hes : Event.shutdown ∉ es) : (Log.ofOuts (b.run es).1).discarded = [] := by
  refine (books_run (books_start h) es).discarded_running ?_
  rw [running_until h hes]
  exact Phase.noConfusion

/-- The shutdown discards what is queued then, and nothing is discarded before or after. -/
theorem discarded_of_shutdown {before : List Event} (hfirst : Event.shutdown ∉ before) (after : List Event) :
    (Log.ofOuts (b.run (before ++ .shutdown :: after)).1).discarded = (b.run before).2.pool.queued := by
  let c := (b.run before).2
  have hafter : Log.ofOuts ((c.step .shutdown).2.run after).1 = .none := quiet_run (stopped_after_shutdown c) after
  have hrest : Log.ofOuts (c.run (.shutdown :: after)).1 = ⟨[], [], [], c.pool.queued⟩ := by
    show (Log.ofOut (c.step .shutdown).1).append (.ofOuts ((c.step .shutdown).2.run after).1) = _
    rw [hafter, Log.append_none, log_shutdown]
  rw [run_append, Log.ofOuts_append, hrest, Log.append, discarded_until h hfirst]
  rfl

/-- Once a node has been shut down, the offers of a stream are those its counters account for, the jobs that were
queued at the shutdown and the offers made for sessions closed by then. So the counters account for all of them
exactly if there were no such jobs and no such offers. -/
theorem uncounted_batches {before : List Event} (hfirst : Event.shutdown ∉ before) (after : List Event) (s : Stream) :
    let es := before ++ .shutdown :: after
    let offers := onStream s ((b.run es).1.flatMap offersOf)
    let counts := (b.run es).2.pool.counts
    let queued := (b.run before).2.pool.queued
    offers = counts.accounted s + onStream s queued + onStream s (b.lateOffers es) ∧
      (offers = counts.accounted s ↔
        (∀ j ∈ queued, j.batch.stream ≠ s) ∧ ∀ j ∈ b.lateOffers es, j.batch.stream ≠ s) := by
  intro es offers counts queued
  have hbalanced := balanced_start h es
  have htaken := hbalanced.taken s
  have hoffers := hbalanced.offers s
  have hstopped : (b.run es).2.pool.queued = [] := (stopped_since (by simp [es]) b).queued
  have hdiscarded : (Log.ofOuts (b.run es).1).discarded = queued := discarded_of_shutdown h hfirst after
  rw [hstopped, hdiscarded, onStream_nil] at htaken
  have hall : offers = counts.accounted s + onStream s queued + onStream s (b.lateOffers es) := by
    simp only [DeliveryCounts.accounted, offers, counts]
    omega
  refine ⟨hall, ?_⟩
  rw [← onStream_eq_zero_iff, ← onStream_eq_zero_iff]
  omega

end Start

/-- One job waits when the node is shut down; the other subscriber asked again after its session was closed. -/
def twoLost : List Event :=
  [.openSession, .openSession, .request 1 (.subscribePending (some ⟨"a", none⟩)), .close 2,
    .request 2 (.subscribePending (some ⟨"b", none⟩)), .signal (.pendingTransaction ⟨0, 0, 0, [], []⟩)]

theorem uncounted_batches_of_two_lost :
    ∃ b, Switchboard.start .standard true = .ok b ∧ Event.shutdown ∉ twoLost ∧
      let es := twoLost ++ [.shutdown]
      onStream .pendingTransactions ((b.run es).1.flatMap offersOf) =
        (b.run es).2.pool.counts.accounted .pendingTransactions
          + onStream .pendingTransactions (b.run twoLost).2.pool.queued
          + onStream .pendingTransactions (b.lateOffers es) := by
  have hfirst : Event.shutdown ∉ twoLost := by simp [twoLost]
  exact ⟨_, rfl, hfirst, (@uncounted_batches .standard true _ rfl twoLost hfirst [] .pendingTransactions).1⟩

/-- Two batches are offered, the node is shut down, and nothing is counted as called or as dropped. -/
theorem lost_unseen :
    ∃ b, Switchboard.start .standard true = .ok b ∧
      let r := b.run (twoLost ++ [.shutdown])
      onStream .pendingTransactions (r.1.flatMap offersOf) = 2 ∧
        r.2.pool.counts.accounted .pendingTransactions = 0 :=
  ⟨_, rfl, by decide +kernel, by decide +kernel⟩

end Switchboard

end LedgerWatch
