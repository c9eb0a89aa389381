/-
  LedgerWatch.Proofs.Switchboard.Results — a callback that fails is nobody else's trouble.

  `results_only_count`: take one run of a node twice, with whatever the callbacks report
  the one time and the other, call by call. The two runs answer every event alike: the
  same calls with the same payloads in the same order, the same replies, the same offers
  taken on. After every event the two nodes are the same but for the counts of calls that
  succeeded and of calls that failed, which add up to the same on each stream.

  Both runs are compared with the one in which no result is heard (`run_unheard`).
-/

import LedgerWatch.Proofs.Delivery.Results
import LedgerWatch.Proofs.Switchboard.Runs

namespace LedgerWatch

/-- The event without what the callbacks report. -/
def Event.unheard : Event → Event
  | .work w _ => .work w none
  | .drain _ => .drain .silent
  | .openSession => .openSession
  | .drop id => .drop id
  | .request id r => .request id r
  | .close id => .close id
  | .insert r => .insert r
  | .erase id => .erase id
  | .apply ops => .apply ops
  | .signal sig => .signal sig
  | .signalTo id sig => .signalTo id sig
  | .shutdown => .shutdown

/-- The event with call number `n`, and those after it, reporting what `results` has for them. -/
def Event.reporting (results : Nat → Option DeliveryError) (n : Nat) : Event → Event
  | .work w _ => .work w (results n)
  | .drain _ => .drain fun k _ => results (n + k)
  | .openSession => .openSession
  | .drop id => .drop id
  | .request id r => .request id r
  | .close id => .close id
  | .insert r => .insert r
  | .erase id => .erase id
  | .apply ops => .apply ops
  | .signal sig => .signal sig
  | .signalTo id sig => .signalTo id sig
  | .shutdown => .shutdown

theorem Event.unheard_reporting (results : Nat → Option DeliveryError) (n : Nat) (e : Event) :
    (e.reporting results n).unheard = e.unheard := by
  cases e <;> rfl

namespace Switchboard

/-! ## A node that does not hear -/

def unheard (b : Switchboard) : Switchboard := { b with pool := b.pool.unheard }

@[simp] theorem sessions_unheard (b : Switchboard) : b.unheard.sessions = b.sessions := rfl

theorem offerAll_unheard (id : Nat) (p : Pool) (batches : List Batch) :
    offerAll id p.unheard batches = ((offerAll id p batches).1, (offerAll id p batches).2.unheard) := by
  induction batches generalizing p with
  | nil => rfl
  | cons batch batches ih => rw [offerAll_cons, offerAll_cons, Pool.offer_unheard, ih]

theorem tell_unheard (b : Switchboard) (sig : Signal) (id : Nat) :
    b.unheard.tell sig id = ((b.tell sig id).1, (b.tell sig id).2.unheard) := by
  unfold tell
  rw [sessions_unheard]
  cases b.sessions.get? id with
  | none => rfl
  | some s =>
    show ((offerAll id b.pool.unheard (s.notices b.ledger sig).batches).1, _) = _
    rw [offerAll_unheard]
    simp only [unheard, offerAll_unheard]

theorem tellAll_unheard (sig : Signal) (b : Switchboard) (ids : List Nat) :
    tellAll sig b.unheard ids = ((tellAll sig b ids).1, (tellAll sig b ids).2.unheard) := by
  induction ids generalizing b with
  | nil => rfl
  | cons id ids ih => rw [tellAll_cons, tellAll_cons, tell_unheard, ih]

theorem closeHeld_unheard (b : Switchboard) (id : Nat) : b.unheard.closeHeld id = (b.closeHeld id).unheard := by
  unfold closeHeld
  rw [sessions_unheard]
  cases b.sessions.get? id with
  | none => rfl
  | some s => rfl

theorem closeAll_unheard (b : Switchboard) (ids : List Nat) :
    ids.foldl closeHeld b.unheard = (ids.foldl closeHeld b).unheard := by
  induction ids generalizing b with
  | nil => rfl
  | cons id ids ih => rw [List.foldl_cons, List.foldl_cons, closeHeld_unheard, ih]

theorem step_unheard (b : Switchboard) (e : Event) :
    b.unheard.step e.unheard = ((b.step e).1, (b.step e).2.unheard) := by
  cases e with
  | openSession | insert r | erase id | apply ops => rfl
  | drop id =>
    simp only [step, Event.unheard]
    by_cases hheld : b.sessions.contains id = true
    · have hheld' : b.unheard.sessions.contains id = true := hheld
      rw [if_pos hheld, if_pos hheld']
      rfl
    · have hheld' : ¬ b.unheard.sessions.contains id = true := hheld
      rw [if_neg hheld, if_neg hheld']
  | request id r | close id =>
    simp only [step, Event.unheard, sessions_unheard]
    cases b.sessions.get? id <;> rfl
  | signal sig =>
    have htold := tellAll_unheard sig b.prune b.present
    show (Out.offered (tellAll sig b.prune.unheard b.present).1, (tellAll sig b.prune.unheard b.present).2) = _
    rw [htold]
    rfl
  | signalTo id sig =>
    simp only [step, Event.unheard, sessions_unheard, tell_unheard]
    cases b.sessions.get? id <;> rfl
  | work w outcome =>
    show (Out.ran (b.pool.unheard.work w none).1, { b with pool := (b.pool.unheard.work w none).2 }) = _
    rw [Pool.work_unheard b.pool w outcome]
    rfl
  | drain t =>
    show (Out.ran (b.pool.unheard.drain .silent).1, { b with pool := (b.pool.unheard.drain .silent).2 }) = _
    rw [Pool.drain_unheard b.pool t]
    rfl
  | shutdown =>
    have hclosed := closeAll_unheard b.prune b.present
    have hpresent : b.unheard.present = b.present := rfl
    have hprune : b.unheard.prune = b.prune.unheard := rfl
    show (Out.ran b.unheard.shutdown.1, b.unheard.shutdown.2) = _
    rw [shutdown_eq, hpresent, hprune, hclosed]
    rfl

theorem run_unheard (b : Switchboard) (es : List Event) :
    b.unheard.run (es.map Event.unheard) = ((b.run es).1, (b.run es).2.unheard) := by
  induction es generalizing b with
  | nil => rfl
  | cons e es ih =>
    show (((b.unheard.step e.unheard).1 :: ((b.unheard.step e.unheard).2.run (es.map Event.unheard)).1),
      ((b.unheard.step e.unheard).2.run (es.map Event.unheard)).2) = _
    rw [step_unheard, ih]
    rfl

/-! ## Two runs -/

/-- Two nodes that are the same, but for which of the calls they made they have counted as failed. -/
structure SameButResults (b c : Switchboard) : Prop where
  node : { b with pool := c.pool } = c
  pool : { b.pool with counts := c.pool.counts } = c.pool
  scheduled : c.pool.counts.scheduled = b.pool.counts.scheduled
  dropped : ∀ reason, c.pool.counts.dropped reason = b.pool.counts.dropped reason
  called : ∀ s, c.pool.counts.delivered.get s + c.pool.counts.failures.get s =
    b.pool.counts.delivered.get s + b.pool.counts.failures.get s

theorem sameButResults_of_unheard {b c : Switchboard} (h : b.unheard = c.unheard) : SameButResults b c := by
  have hpool : b.pool.unheard = c.pool.unheard := congrArg Switchboard.pool h
  have hcounts : b.pool.counts.unheard = c.pool.counts.unheard := congrArg Pool.counts hpool
  refine ⟨?_, ?_, ?_, ?_, ?_⟩
  · exact congrArg (fun d : Switchboard => { d with pool := c.pool }) h
  · exact congrArg (fun p : Pool => { p with counts := c.pool.counts }) hpool
  · exact (congrArg DeliveryCounts.scheduled hcounts).symm
  · intro reason
    cases reason with
    | queueFull => exact (congrArg DeliveryCounts.queueFull hcounts).symm
    | poolStopped => exact (congrArg DeliveryCounts.poolStopped hcounts).symm
    | sessionClosed => exact (congrArg DeliveryCounts.sessionClosed hcounts).symm
  · intro s
    have hdelivered := congrArg (fun c : DeliveryCounts => c.delivered.get s) hcounts
    simp only [DeliveryCounts.unheard, PerStream.get_plus] at hdelivered
    exact hdelivered.symm

/-- The two runs come out the same, event by event, but for the counts of results. -/
structure Unaffected (b : Switchboard) (es fs : List Event) : Prop where
  outs : (b.run es).1 = (b.run fs).1
  states : ∀ n, SameButResults (b.run (es.take n)).2 (b.run (fs.take n)).2

theorem unaffected_of_unheard (b : Switchboard) {es fs : List Event} (h : es.map Event.unheard = fs.map Event.unheard) :
    Unaffected b es fs := by
  refine ⟨?_, ?_⟩
  · have hes := congrArg Prod.fst (run_unheard b es)
    have hfs := congrArg Prod.fst (run_unheard b fs)
    rw [h] at hes
    exact hes.symm.trans hfs
  · intro n
    have hes := congrArg Prod.snd (run_unheard b (es.take n))
    have hfs := congrArg Prod.snd (run_unheard b (fs.take n))
    rw [List.map_take, h, ← List.map_take] at hes
    exact sameButResults_of_unheard (hes.symm.trans hfs)

/-- The calls of a step. -/
def callsOf (o : Out) : List Job := (Log.ofOut o).called

/-- The run with its calls, numbered from `n` on, reporting one after the other what `results` has for them. -/
def reporting (results : Nat → Option DeliveryError) (n : Nat) (b : Switchboard) : List Event → List Event
  | [] => []
  | e :: es =>
    e.reporting results n ::
      reporting results (n + (callsOf (b.step (e.reporting results n)).1).length)
        (b.step (e.reporting results n)).2 es

theorem unheard_reporting (results : Nat → Option DeliveryError) (n : Nat) (b : Switchboard) (es : List Event) :
    (reporting results n b es).map Event.unheard = es.map Event.unheard := by
  induction es generalizing n b with
  | nil => rfl
  | cons e es ih =>
    rw [reporting, List.map_cons, List.map_cons, ih, Event.unheard_reporting]

/-- What the callbacks report one after the other changes no call, no reply, no offer, no queue, no session and no
other count. -/
theorem results_only_count (b : Switchboard) (es : List Event) (results results' : Nat → Option DeliveryError) :
    Unaffected b (b.reporting results 0 es) (b.reporting results' 0 es) := by
  refine unaffected_of_unheard b ?_
  rw [unheard_reporting, unheard_reporting]

/-- The first of two calls fails. -/
example :
    (Switchboard.start .standard true).toOption.map (fun b =>
      let es : List Event := [.openSession, .request 1 (.subscribePending (some ⟨"a", none⟩)),
        .signal (.pendingTransaction ⟨0, 0, 0, [], []⟩), .signal (.pendingTransaction ⟨1, 0, 0, [], []⟩),
        .drain .silent]
      let fs := b.reporting (fun n => if n = 0 then some .disconnected else none) 0 es
      let counts := (b.run fs).2.pool.counts
      (counts.failures.get .pendingTransactions, counts.delivered.get .pendingTransactions)) = some (1, 1) := by
  decide +kernel

end Switchboard

end LedgerWatch
