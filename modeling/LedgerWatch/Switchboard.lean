/-
  LedgerWatch.Switchboard — the sessions of a node, over one ledger and one pool.

  A session lives as long as its connection holds it (`sessions`). The roster, which
  every signal goes by, is only put in order now and then: it may list sessions that are
  gone, and they are struck off when the next session opens or the next signal comes.
  The gauge of active sessions is set at those moments and not in between.

  `step` takes one event: a request of a session, a change of the ledger, a signal the
  ledger gives about it, a turn of one worker or a run of all, or the end. Signals only
  offer batches to the pool; callbacks are called by `work` and `drain` alone.
-/

import LedgerWatch.Delivery.Pool
import LedgerWatch.Session.Notices
import LedgerWatch.Session.Requests

namespace LedgerWatch

structure Switchboard where
  settings : Settings
  ledger : Ledger
  pool : Pool
  /-- Session numbers in opening order. -/
  roster : List Nat
  sessions : SortedMap Nat Subscriptions
  activeSessions : Nat
  anomalies : Nat
  itemsArmed : Nat
  batchSize : Histogram

/-- A batch offered for a session, and whether it was taken on. -/
structure Offer where
  job : Job
  accepted : Bool

inductive Event where
  | openSession
  /-- The connection lets go of its session. -/
  | drop (session : Nat)
  | request (session : Nat) (request : Request)
  | close (session : Nat)
  | insert (record : Record)
  | erase (id : ObjectId)
  | apply (ops : List AppliedOperation)
  | signal (signal : Signal)
  /-- A signal to one session only. -/
  | signalTo (session : Nat) (signal : Signal)
  /-- One turn of one worker. -/
  | work (worker : Nat) (outcome : Option DeliveryError)
  | drain (transport : Transport)
  | shutdown

inductive Out where
  | opened (session : Nat)
  | dropped (existed : Bool)
  | replied (reply : Reply)
  | noSession
  | done
  /-- The record that was there before. -/
  | previous (record : Option Record)
  | offered (offers : List Offer)
  | ran (run : Pool.Run)

namespace Switchboard

def start (settings : Settings) (hasRuntime : Bool) : Except NotifyError Switchboard := do
  settings.check
  let pool ← Pool.start settings.delivery hasRuntime
  return ⟨settings, .empty, pool, [], .empty, 0, 0, 0, .zero⟩

def metrics (b : Switchboard) : Metrics := ⟨b.pool.counts, b.anomalies, b.itemsArmed, b.batchSize, b.activeSessions⟩

def sessionCount (b : Switchboard) : Nat := b.roster.countP b.sessions.contains

/-- The roster without the sessions that are gone. -/
def prune (b : Switchboard) : Switchboard :=
  let roster := b.roster.filter b.sessions.contains
  { b with roster := roster, activeSessions := roster.length }

def openSession (b : Switchboard) : Nat × Switchboard :=
  let (id, pool) := b.pool.openSession
  let roster := b.roster.filter b.sessions.contains ++ [id]
  (id, { b with
    pool := pool
    roster := roster
    sessions := b.sessions.insert id (.new b.settings)
    activeSessions := roster.length })

def dropSession (b : Switchboard) (id : Nat) : Switchboard :=
  { b with pool := b.pool.close id, sessions := b.sessions.erase id }

/-- A session with all it asked for taken back; what is queued for it will be dropped. -/
def closeSession (b : Switchboard) (id : Nat) (s : Subscriptions) : Switchboard :=
  { b with pool := b.pool.close id, sessions := b.sessions.insert id s.tearDown }

def serve (b : Switchboard) (id : Nat) (s : Subscriptions) (r : Request) : Reply × Switchboard :=
  let (reply, s') := s.serve b.ledger r
  (reply, { b with
    sessions := b.sessions.insert id s'
    itemsArmed := b.itemsArmed + (s'.armed - s.armed) })

/-- Offers batches for a session one by one. -/
def offerAll (id : Nat) : Pool → List Batch → List Offer × Pool
  | p, [] => ([], p)
  | p, batch :: batches =>
    let (accepted, p) := p.offer id batch
    let (offers, p) := offerAll id p batches
    (⟨⟨id, batch⟩, accepted⟩ :: offers, p)

/-- Tells one session of a signal. -/
def tell (b : Switchboard) (sig : Signal) (id : Nat) : List Offer × Switchboard :=
  match b.sessions.get? id with
  | none => ([], b)
  | some s =>
    let n := s.notices b.ledger sig
    let (offers, pool) := offerAll id b.pool n.batches
    (offers, { b with
      pool := pool
      anomalies := b.anomalies + n.anomalies
      batchSize := n.sizes.foldl Histogram.observe b.batchSize })

def tellAll (sig : Signal) : Switchboard → List Nat → List Offer × Switchboard
  | b, [] => ([], b)
  | b, id :: ids =>
    let (first, b) := b.tell sig id
    let (rest, b) := tellAll sig b ids
    (first ++ rest, b)

def signal (b : Switchboard) (sig : Signal) : List Offer × Switchboard :=
  let b := b.prune
  tellAll sig b b.roster

/-- Closes every session and stops the workers. -/
def shutdown (b : Switchboard) : Pool.Run × Switchboard :=
  let b := b.prune
  let b := b.roster.foldl (fun b id => match b.sessions.get? id with
    | some s => b.closeSession id s
    | none => b) b
  let (run, pool) := b.pool.shutdown
  (run, { b with pool := pool })

def step (b : Switchboard) : Event → Out × Switchboard
  | .openSession => let (id, b) := b.openSession; (.opened id, b)
  | .drop id => if b.sessions.contains id then (.dropped true, b.dropSession id) else (.dropped false, b)
  | .request id r =>
    match b.sessions.get? id with
    | none => (.noSession, b)
    | some s => let (reply, b) := b.serve id s r; (.replied reply, b)
  | .close id =>
    match b.sessions.get? id with
    | none => (.noSession, b)
    | some s => (.done, b.closeSession id s)
  | .insert r => (.previous (b.ledger.find? r.id), { b with ledger := b.ledger.insert r })
  | .erase id => (.previous (b.ledger.find? id), { b with ledger := b.ledger.erase id })
  | .apply ops => (.done, { b with ledger := b.ledger.apply ops })
  | .signal sig => let (offers, b) := b.signal sig; (.offered offers, b)
  | .signalTo id sig =>
    match b.sessions.get? id with
    | none => (.noSession, b)
    | some _ => let (offers, b) := b.tell sig id; (.offered offers, b)
  | .work worker outcome => let (run, pool) := b.pool.work worker outcome; (.ran run, { b with pool := pool })
  | .drain transport => let (run, pool) := b.pool.drain transport; (.ran run, { b with pool := pool })
  | .shutdown => let (run, b) := b.shutdown; (.ran run, b)

end Switchboard

end LedgerWatch
