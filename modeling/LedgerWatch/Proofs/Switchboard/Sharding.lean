/-
  LedgerWatch.Proofs.Switchboard.Sharding — sessions are spread evenly over the workers of a node.

  To its pool a run of a node is a run of the pool's own (`poolRun`), in which as many
  sessions are opened and given the same numbers (`openings_poolRun`, `given_poolRun`). So
  what holds of the sessions of a pool holds of those of a node, whatever they ask for and
  whatever they are told: each has one worker, that exists, and workers differ by one
  session at most.

  Neither a pool nor a node starts without a worker, so that there is always a number to
  divide by (`sessions_spread_evenly`).
-/

import LedgerWatch.Proofs.Delivery.Sharding
import LedgerWatch.Proofs.Switchboard.Roster

namespace LedgerWatch.Switchboard

theorem start_unmanned {settings : Settings} (h : settings.delivery.workers = 0) (hasRuntime : Bool) :
    ∃ e, Switchboard.start settings hasRuntime = .error e ∧
      (settings.filter.check = .ok () → e = .invalidConfig "delivery workers cannot be 0") := by
  cases hfilter : settings.filter.check with
  | error e =>
    have hcheck : settings.check = .error (.filter e) := by rw [Settings.check, hfilter]
    refine ⟨.filter e, ?_, nofun⟩
    rw [start, hcheck]
    rfl
  | ok _ =>
    have hdelivery : settings.delivery.check = .error (.invalidConfig "delivery workers cannot be 0") := if_pos h
    have hcheck : settings.check = .error (.invalidConfig "delivery workers cannot be 0") := by
      rw [Settings.check, hfilter, hdelivery]
    refine ⟨_, ?_, fun _ => rfl⟩
    rw [start, hcheck]
    rfl

section Start

variable {settings : Settings} {hasRuntime : Bool} {b : Switchboard}
  (h : Switchboard.start settings hasRuntime = .ok b) (es : List Event)
include h

theorem openings_poolRun : Pool.openings (b.poolRun es) = (connections es).opened := by
  have hstart : b.pool.opened = 0 := (follows_start h).opened
  have hend : (b.run es).2.pool.opened = (connections es).opened := (follows_run (follows_start h) es).opened
  have hrun := (Pool.numbers_run b.pool (b.poolRun es)).2
  rw [run_poolRun, hstart, hend] at hrun
  omega

theorem given_poolRun : b.pool.given (b.poolRun es) = (b.run es).1.filterMap number? := by
  have hstart : b.pool.opened = 0 := (follows_start h).opened
  have hnumbers : (b.run es).1.filterMap number? = List.range' 1 (connections es).opened :=
    numbers_run (follows_start h) es
  rw [hnumbers, (Pool.numbers_run b.pool (b.poolRun es)).1, hstart, openings_poolRun h es]

end Start

/-- A pool with no worker does not start, and neither does a node. In any run of a pool that did start, with any number
of sessions below 2^64, a session has one worker for good, and that worker is there; two sessions have the same one
exactly if their numbers leave the same remainder; and each worker has the sessions divided by the workers, rounded
down or up. So it is with the pool of a node, whose sessions have the numbers they were given as they opened. -/
theorem sessions_spread_evenly :
    (∀ (s : DeliverySettings) (hasRuntime : Bool), s.workers = 0 →
      Pool.start s hasRuntime = .error (.invalidConfig "delivery workers cannot be 0")) ∧
    (∀ (settings : Settings) (hasRuntime : Bool), settings.delivery.workers = 0 →
      ∃ e, Switchboard.start settings hasRuntime = .error e ∧
        (settings.filter.check = .ok () → e = .invalidConfig "delivery workers cannot be 0")) ∧
    (∀ (s : DeliverySettings) (hasRuntime : Bool) (p : Pool) (es : List Pool.Event),
      Pool.start s hasRuntime = .ok p → Pool.openings es < UInt64.size → Pool.Sharded s p es) ∧
    ∀ (settings : Settings) (hasRuntime : Bool) (b : Switchboard) (es : List Event),
      Switchboard.start settings hasRuntime = .ok b → (connections es).opened < UInt64.size →
        Pool.Sharded settings.delivery b.pool (b.poolRun es) ∧
          b.pool.given (b.poolRun es) = (b.run es).1.filterMap number? := by
  refine ⟨?_, ?_, ?_, ?_⟩
  · intro s hasRuntime h
    exact Pool.start_unmanned h hasRuntime
  · intro settings hasRuntime h
    exact start_unmanned h hasRuntime
  · intro s hasRuntime p es h hes
    exact Pool.sharded_run h hes
  · intro settings hasRuntime b es h hes
    obtain ⟨p, hp, rfl⟩ := start_ok h
    rw [← openings_poolRun h es] at hes
    exact ⟨Pool.sharded_run hp hes, given_poolRun h es⟩

/-- As many workers, and the rest as usual. -/
def staffed (workers : Nat) : Settings := { Settings.standard with delivery := ⟨workers, 64⟩ }

/-- Seven sessions are opened; the second is let go of, and the fourth opens while a batch of the first waits. -/
def sevenOpened : List Event :=
  [.openSession, .openSession, .request 1 (.subscribePending (some ⟨"a", none⟩)), .openSession, .drop 2,
    .signal (.pendingTransaction ⟨0, 0, 0, [], []⟩), .openSession, .work 1 none, .openSession, .openSession,
    .openSession]

/-- Of three workers worker 1 has three of the seven and the others have two each; nothing starts without a worker. -/
theorem sessions_spread_evenly_of_seven :
    Pool.start (staffed 0).delivery true = .error (.invalidConfig "delivery workers cannot be 0") ∧
      (∃ e, Switchboard.start (staffed 0) true = .error e) ∧
      ∃ b, Pool.start (staffed 3).delivery true = .ok b.pool ∧ Switchboard.start (staffed 3) true = .ok b ∧
        Pool.Sharded (staffed 3).delivery b.pool [.openSession, .shutdown, .openSession] ∧
        let pes := b.poolRun sevenOpened
        Pool.Sharded (staffed 3).delivery b.pool pes ∧ Pool.BoundTo (b.run sevenOpened).2.pool 4 1 ∧
          b.pool.given pes = (b.run sevenOpened).1.filterMap number? ∧ b.pool.given pes = [1, 2, 3, 4, 5, 6, 7] ∧
          [0, 1, 2].map (fun w => (b.pool.given pes).countP fun i => (b.pool.run pes).2.shard i = w) = [2, 3, 2] := by
  obtain ⟨hpool, hnode, hpoolRun, hnodeRun⟩ := sessions_spread_evenly
  obtain ⟨e, he, -⟩ := hnode (staffed 0) true rfl
  refine ⟨hpool (staffed 0).delivery true rfl, ⟨e, he⟩, _, rfl, rfl, hpoolRun _ true _ _ rfl (by decide), ?_⟩
  obtain ⟨hsharded, hgiven⟩ := hnodeRun (staffed 3) true _ sevenOpened rfl (by decide)
  have hfour := hsharded.bound _ List.prefix_rfl 4
  rw [run_poolRun] at hfour
  exact ⟨hsharded, hfour, hgiven, by decide +kernel, by decide +kernel⟩

end LedgerWatch.Switchboard
