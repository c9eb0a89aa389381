/-
  LedgerWatch.Delivery.Pool — the workers that call subscribers, and their queues.

  Sessions are numbered from 1 as they open and are bound to the worker whose number is
  the session's modulo the number of workers. `offer` only queues: a batch is refused
  when its session is closed, when the workers have stopped, or when the worker's queue
  is full. `work` is one turn of one worker: the batch at the head of its queue is one
  call of its callback if the session is open, and is dropped if it is closed. `drain`
  lets the workers run until their queues are empty.

  A pool is shut down, or it is abandoned: then the workers still have their queues until
  they run the next time, find nobody left, and stop. Either way what is queued is
  discarded.
-/

import LedgerWatch.Metrics
import LedgerWatch.Settings

namespace LedgerWatch

structure Job where
  session : Nat
  batch : Batch

inductive Phase where
  | running
  | abandoned
  | stopped
  deriving DecidableEq, Repr

structure Pool where
  capacity : Nat
  queues : List (Array Job)
  /-- Sessions opened so far. -/
  opened : Nat
  closed : List Nat
  phase : Phase
  counts : DeliveryCounts

/-- What the transport reports on a call, by the number of the call in its run. -/
abbrev Transport := Nat → Callback → Option DeliveryError

/-- Every callback fails or succeeds as it says itself. -/
def Transport.faithful : Transport := fun _ callback => callback.failure

namespace Pool

def start (s : DeliverySettings) (hasRuntime : Bool) : Except NotifyError Pool := do
  s.check
  if !hasRuntime then throw .noRuntime
  return ⟨s.capacity, List.replicate s.workers #[], 0, [], .running, .zero⟩

def workers (p : Pool) : Nat := p.queues.length

/-- The worker of a session. -/
def shard (p : Pool) (session : Nat) : Nat := session % p.workers

def queueOf (p : Pool) (session : Nat) : Array Job := p.queues.getD (p.shard session) #[]

def isOpen (p : Pool) (session : Nat) : Bool := !p.closed.contains session

/-- Opens a session: its number and the pool. -/
def openSession (p : Pool) : Nat × Pool := (p.opened + 1, { p with opened := p.opened + 1 })

/-- For good. -/
def close (p : Pool) (session : Nat) : Pool := { p with closed := session :: p.closed }

/-- Whether the batch is taken on. -/
def offer (p : Pool) (session : Nat) (b : Batch) : Bool × Pool :=
  if !p.isOpen session then (false, p)
  else if p.phase = .stopped then (false, { p with counts := p.counts.drop b.stream .poolStopped })
  else if p.capacity ≤ (p.queueOf session).size then
    (false, { p with counts := p.counts.drop b.stream .queueFull })
  else (true,
    { p with
      queues := p.queues.modify (p.shard session) (·.push ⟨session, b⟩)
      counts := p.counts.schedule b.stream })

/-- All that is queued, worker by worker. -/
def queued (p : Pool) : List Job := p.queues.flatMap Array.toList

def emptied (p : Pool) : Pool := { p with queues := p.queues.map fun _ => #[] }

/-- Calls made, jobs taken from a queue for a closed session, and jobs discarded. -/
structure Run where
  called : List Job
  skipped : List Job
  discarded : List Job

/-- The counts after a job is taken from its queue; `outcome` is what its callback reports if it is called. -/
def deliver (p : Pool) (c : DeliveryCounts) (j : Job) (outcome : Option DeliveryError) : DeliveryCounts :=
  if p.isOpen j.session then
    match outcome with
    | none => c.succeed j.batch.stream
    | some _ => c.fail j.batch.stream
  else c.drop j.batch.stream .sessionClosed

/-- One worker takes the job at the head of its queue. -/
def work (p : Pool) (worker : Nat) (outcome : Option DeliveryError) : Run × Pool :=
  match p.phase, (p.queues.getD worker #[]).toList with
  | .running, j :: js =>
    (if p.isOpen j.session then ⟨[j], [], []⟩ else ⟨[], [j], []⟩,
      { p with
        queues := p.queues.set worker js.toArray
        counts := p.deliver p.counts j outcome })
  | _, _ => (⟨[], [], []⟩, p)

/-- The counts after the jobs are taken from the queues, the next call being number `n`. -/
def settle (p : Pool) (transport : Transport) : Nat → DeliveryCounts → List Job → DeliveryCounts
  | _, c, [] => c
  | n, c, j :: js =>
    settle p transport (if p.isOpen j.session then n + 1 else n) (p.deliver c j (transport n j.batch.callback)) js

def drain (p : Pool) (transport : Transport) : Run × Pool :=
  match p.phase with
  | .running =>
    (⟨p.queued.filter fun j => p.isOpen j.session, p.queued.filter fun j => !p.isOpen j.session, []⟩,
      { p.emptied with counts := settle p transport 0 p.counts p.queued })
  | .abandoned => (⟨[], [], p.queued⟩, { p.emptied with phase := .stopped })
  | .stopped => (⟨[], [], []⟩, p)

def shutdown (p : Pool) : Run × Pool := (⟨[], [], p.queued⟩, { p.emptied with phase := .stopped })

def abandon (p : Pool) : Pool := if p.phase = .running then { p with phase := .abandoned } else p

end Pool

end LedgerWatch
