/-
  LedgerWatch.Proofs.Switchboard.Runs — the runs of a node, and what they are for its pool.

  A run is any list of events. To the pool an event is a list of the pool's own events
  (`poolEvents`): a signal is the offers it comes to, session by session of the roster,
  as they stand when the signal is given; a shutdown is a close for each session, then
  the end. `pool_run`: so the pool of a node goes through a run of its own, with the log
  that the outcomes of the node's events show.
-/

import LedgerWatch.Proofs.Delivery.Runs
import LedgerWatch.Switchboard

namespace LedgerWatch

namespace Log

/-- The jobs of the offers that were taken on. -/
def ofOffers (offers : List Offer) : Log := ⟨(offers.filter (·.accepted)).map (·.job), [], [], []⟩

def ofOut : Out → Log
  | .offered offers => .ofOffers offers
  | .ran run => .ofRun run
  | .opened _ | .dropped _ | .replied _ | .noSession | .done | .previous _ => .none

def ofOuts : List Out → Log
  | [] => .none
  | o :: os => (ofOut o).append (ofOuts os)

theorem ofOffers_append (os ps : List Offer) : ofOffers (os ++ ps) = (ofOffers os).append (ofOffers ps) := by
  simp [ofOffers, append]

theorem ofOuts_append (os ps : List Out) : ofOuts (os ++ ps) = (ofOuts os).append (ofOuts ps) := by
  induction os with
  | nil => rfl
  | cons o os ih =>
    show (ofOut o).append (ofOuts (os ++ ps)) = _
    rw [ih, ← append_assoc]
    rfl

end Log

namespace Switchboard

/-- The jobs offered in a step, taken on or not. -/
def offersOf : Out → List Job
  | .offered offers => offers.map (·.job)
  | .opened _ | .dropped _ | .replied _ | .noSession | .done | .previous _ | .ran _ => []

def run (b : Switchboard) : List Event → List Out × Switchboard
  | [] => ([], b)
  | e :: es => ((b.step e).1 :: ((b.step e).2.run es).1, ((b.step e).2.run es).2)

theorem run_append (b : Switchboard) (es fs : List Event) :
    b.run (es ++ fs) = ((b.run es).1 ++ ((b.run es).2.run fs).1, ((b.run es).2.run fs).2) := by
  induction es generalizing b with
  | nil => rfl
  | cons e es ih =>
    show ((b.step e).1 :: ((b.step e).2.run (es ++ fs)).1, ((b.step e).2.run (es ++ fs)).2) = _
    rw [ih]
    rfl

/-- What each step keeps, a run keeps. -/
theorem run_keeps {P : Switchboard → Prop} (hstep : ∀ b e, P b → P (b.step e).2) {b : Switchboard} (h : P b)
    (es : List Event) : P (b.run es).2 := by
  induction es generalizing b with
  | nil => exact h
  | cons e es ih => exact ih (hstep b e h)

theorem start_ok {settings : Settings} {hasRuntime : Bool} {b : Switchboard}
    (h : Switchboard.start settings hasRuntime = .ok b) :
    ∃ p, Pool.start settings.delivery hasRuntime = .ok p ∧ b = ⟨settings, .empty, p, [], .empty, 0, 0, 0, .zero⟩ := by
  unfold start at h
  cases hc : settings.check with
  | error e => rw [hc] at h; contradiction
  | ok _ =>
    cases hp : Pool.start settings.delivery hasRuntime with
    | error e => rw [hc, hp] at h; contradiction
    | ok p =>
      rw [hc, hp] at h
      exact ⟨p, rfl, (Except.ok.inj h).symm⟩

/-! ## Telling one session, and all -/

theorem tell_none {b : Switchboard} {id : Nat} (h : b.sessions.get? id = none) (sig : Signal) :
    b.tell sig id = ([], b) := by
  simp only [tell, h]

theorem tell_some {b : Switchboard} {id : Nat} {s : Subscriptions} (h : b.sessions.get? id = some s) (sig : Signal) :
    (b.tell sig id).1 = (offerAll id b.pool (s.notices b.ledger sig).batches).1 ∧
      (b.tell sig id).2.pool = (offerAll id b.pool (s.notices b.ledger sig).batches).2 := by
  simp only [tell, h, and_self]

/-- To tell a session of a signal touches the pool and the counts, and nothing else. -/
theorem tell_frame (b : Switchboard) (sig : Signal) (id : Nat) :
    ∃ p n h, (b.tell sig id).2 = { b with pool := p, anomalies := n, batchSize := h } := by
  unfold tell
  split
  · exact ⟨b.pool, b.anomalies, b.batchSize, rfl⟩
  · exact ⟨_, _, _, rfl⟩

theorem tellAll_cons (sig : Signal) (b : Switchboard) (id : Nat) (ids : List Nat) :
    tellAll sig b (id :: ids) =
      ((b.tell sig id).1 ++ (tellAll sig (b.tell sig id).2 ids).1, (tellAll sig (b.tell sig id).2 ids).2) := rfl

theorem tellAll_frame (sig : Signal) (b : Switchboard) (ids : List Nat) :
    ∃ p n h, (tellAll sig b ids).2 = { b with pool := p, anomalies := n, batchSize := h } := by
  induction ids generalizing b with
  | nil => exact ⟨b.pool, b.anomalies, b.batchSize, rfl⟩
  | cons id ids ih =>
    obtain ⟨p, n, h, hfirst⟩ := tell_frame b sig id
    obtain ⟨p', n', h', hrest⟩ := ih (b.tell sig id).2
    refine ⟨p', n', h', ?_⟩
    rw [tellAll_cons]
    show (tellAll sig (b.tell sig id).2 ids).2 = _
    rw [hrest, hfirst]

@[simp] theorem tell_sessions (b : Switchboard) (sig : Signal) (id : Nat) :
    (b.tell sig id).2.sessions = b.sessions := by
  obtain ⟨p, n, h, heq⟩ := tell_frame b sig id
  rw [heq]

@[simp] theorem tell_ledger (b : Switchboard) (sig : Signal) (id : Nat) : (b.tell sig id).2.ledger = b.ledger := by
  obtain ⟨p, n, h, heq⟩ := tell_frame b sig id
  rw [heq]

/-- What a signal comes to for one session. -/
def batchesFor (b : Switchboard) (sig : Signal) (id : Nat) : List Batch :=
  match b.sessions.get? id with
  | none => []
  | some s => (s.notices b.ledger sig).batches

/-- The roster a signal goes by. -/
def present (b : Switchboard) : List Nat := b.roster.filter b.sessions.contains

theorem offerAll_cons (id : Nat) (p : Pool) (batch : Batch) (batches : List Batch) :
    offerAll id p (batch :: batches) =
      (⟨⟨id, batch⟩, (p.offer id batch).1⟩ :: (offerAll id (p.offer id batch).2 batches).1,
        (offerAll id (p.offer id batch).2 batches).2) := rfl

theorem jobs_offerAll (id : Nat) (p : Pool) (batches : List Batch) :
    (offerAll id p batches).1.map (·.job) = batches.map (⟨id, ·⟩) := by
  induction batches generalizing p with
  | nil => rfl
  | cons batch batches ih => rw [offerAll_cons, List.map_cons, List.map_cons, ih]

theorem jobs_tell (b : Switchboard) (sig : Signal) (id : Nat) :
    (b.tell sig id).1.map (·.job) = (b.batchesFor sig id).map (⟨id, ·⟩) := by
  unfold batchesFor
  cases h : b.sessions.get? id with
  | none => rw [tell_none h]; rfl
  | some s => rw [(tell_some h sig).1, jobs_offerAll]

theorem batchesFor_tell (b : Switchboard) (sig : Signal) (id id' : Nat) :
    (b.tell sig id).2.batchesFor sig id' = b.batchesFor sig id' := by
  simp only [batchesFor, tell_sessions, tell_ledger]

theorem jobs_tellAll (sig : Signal) (b : Switchboard) (ids : List Nat) :
    (tellAll sig b ids).1.map (·.job) = ids.flatMap fun id => (b.batchesFor sig id).map (⟨id, ·⟩) := by
  induction ids generalizing b with
  | nil => rfl
  | cons id ids ih =>
    rw [tellAll_cons, List.map_append, jobs_tell, ih, List.flatMap_cons]
    simp only [batchesFor_tell]

/-- The jobs a signal offers, as the sessions and the ledger stand then. -/
theorem jobs_signal (b : Switchboard) (sig : Signal) :
    (b.signal sig).1.map (·.job) = b.present.flatMap fun id => (b.batchesFor sig id).map (⟨id, ·⟩) :=
  jobs_tellAll sig b.prune b.present

/-! ## What an event is to the pool -/

def poolOffers (b : Switchboard) (sig : Signal) (id : Nat) : List Pool.Event :=
  (b.batchesFor sig id).map (.offer id)

def poolEvents (b : Switchboard) : Event → List Pool.Event
  | .openSession => [.openSession]
  | .drop id | .close id => if b.sessions.contains id then [.close id] else []
  | .request _ _ | .insert _ | .erase _ | .apply _ => []
  | .signal sig => b.present.flatMap (b.poolOffers sig)
  | .signalTo id sig => b.poolOffers sig id
  | .work w outcome => [.work w outcome]
  | .drain transport => [.drain transport]
  | .shutdown => b.present.map .close ++ [.shutdown]

theorem pool_offerAll (id : Nat) (p : Pool) (batches : List Batch) :
    p.run (batches.map (.offer id)) = (.ofOffers (offerAll id p batches).1, (offerAll id p batches).2) := by
  induction batches generalizing p with
  | nil => rfl
  | cons batch batches ih =>
    rw [List.map_cons, Pool.run_cons, offerAll_cons]
    simp only [Pool.step, ih]
    cases (p.offer id batch).1 <;> rfl

theorem pool_tell (b : Switchboard) (sig : Signal) (id : Nat) :
    b.pool.run (b.poolOffers sig id) = (.ofOffers (b.tell sig id).1, (b.tell sig id).2.pool) := by
  unfold poolOffers batchesFor
  cases h : b.sessions.get? id with
  | none => rw [tell_none h]; rfl
  | some s => rw [(tell_some h sig).1, (tell_some h sig).2]; exact pool_offerAll id b.pool _

/-- A signal comes to the same for a session, whoever was told before. -/
theorem poolOffers_tell (b : Switchboard) (sig : Signal) (id : Nat) :
    (b.tell sig id).2.poolOffers sig = b.poolOffers sig := by
  funext id'
  rw [poolOffers, poolOffers, batchesFor_tell]

theorem pool_tellAll (sig : Signal) (b : Switchboard) (ids : List Nat) :
    b.pool.run (ids.flatMap (b.poolOffers sig)) = (.ofOffers (tellAll sig b ids).1, (tellAll sig b ids).2.pool) := by
  induction ids generalizing b with
  | nil => rfl
  | cons id ids ih =>
    rw [List.flatMap_cons, Pool.run_append, pool_tell, tellAll_cons, Log.ofOffers_append]
    simp only []
    rw [← poolOffers_tell b sig id, ih]

/-- An update of one session in place. -/
theorem get?_update {m : SortedMap Nat Subscriptions} {k : Nat} {s : Subscriptions} (hs : m.get? k = some s)
    (f : Subscriptions → Subscriptions) (id : Nat) :
    (m.insert k (f s)).get? id = if k = id then (m.get? id).map f else m.get? id := by
  rw [SortedMap.get?_insert]
  by_cases hk : k = id
  · subst hk
    rw [if_pos rfl, if_pos rfl, hs]
    rfl
  · rw [if_neg hk]
    exact if_neg hk

/-- There is nothing to update. -/
theorem get?_no_update {m : SortedMap Nat Subscriptions} {k : Nat} (hnone : m.get? k = none)
    (f : Subscriptions → Subscriptions) (id : Nat) :
    m.get? id = if k = id then (m.get? id).map f else m.get? id := by
  split
  · rename_i hk
    rw [← hk, hnone]
    rfl
  · rfl

/-- One session of the roster is closed, if it is held. -/
def closeHeld (b : Switchboard) (id : Nat) : Switchboard :=
  match b.sessions.get? id with
  | some s => b.closeSession id s
  | none => b

theorem shutdown_eq (b : Switchboard) :
    b.shutdown = (((b.present.foldl closeHeld b.prune).pool.shutdown).1,
      { b.present.foldl closeHeld b.prune with pool := ((b.present.foldl closeHeld b.prune).pool.shutdown).2 }) := rfl

theorem closeHeld_frame (b : Switchboard) (id : Nat) : ∃ p m, b.closeHeld id = { b with pool := p, sessions := m } := by
  unfold closeHeld
  split
  · exact ⟨_, _, rfl⟩
  · exact ⟨b.pool, b.sessions, rfl⟩

theorem closeHeld_get? (b : Switchboard) (k id : Nat) :
    (b.closeHeld k).sessions.get? id =
      if k = id then (b.sessions.get? id).map Subscriptions.tearDown else b.sessions.get? id := by
  unfold closeHeld
  split
  · rename_i s hs
    exact get?_update hs Subscriptions.tearDown id
  · rename_i hnone
    exact get?_no_update hnone Subscriptions.tearDown id

theorem closeHeld_contains (b : Switchboard) (k id : Nat) :
    (b.closeHeld k).sessions.contains id = b.sessions.contains id := by
  rw [SortedMap.contains, closeHeld_get?]
  split
  · exact Option.isSome_map
  · rfl

theorem closeHeld_pool {b : Switchboard} {id : Nat} (h : b.sessions.contains id = true) :
    (b.closeHeld id).pool = b.pool.close id := by
  obtain ⟨s, hs⟩ := Option.isSome_iff_exists.mp h
  simp only [closeHeld, hs, closeSession]

theorem closeAll_frame (b : Switchboard) (ids : List Nat) :
    ∃ p m, ids.foldl closeHeld b = { b with pool := p, sessions := m } := by
  induction ids generalizing b with
  | nil => exact ⟨b.pool, b.sessions, rfl⟩
  | cons id ids ih =>
    obtain ⟨p, m, hfirst⟩ := closeHeld_frame b id
    obtain ⟨p', m', hrest⟩ := ih (b.closeHeld id)
    refine ⟨p', m', ?_⟩
    rw [List.foldl_cons, hrest, hfirst]

/-- To be closed again changes nothing. -/
theorem closeAll_get? (b : Switchboard) (ids : List Nat) (id : Nat) :
    (ids.foldl closeHeld b).sessions.get? id =
      if id ∈ ids then (b.sessions.get? id).map Subscriptions.tearDown else b.sessions.get? id := by
  induction ids generalizing b with
  | nil => exact (if_neg List.not_mem_nil).symm
  | cons k ids ih =>
    rw [List.foldl_cons, ih, closeHeld_get?]
    by_cases hk : k = id
    · subst hk
      rw [if_pos rfl, if_pos List.mem_cons_self, Option.map_map]
      split <;> rfl
    · simp only [List.mem_cons, if_neg hk, Ne.symm hk, false_or]

theorem pool_closeAll (b : Switchboard) (ids : List Nat) (h : ∀ id ∈ ids, b.sessions.contains id = true) :
    b.pool.run (ids.map .close) = (.none, (ids.foldl closeHeld b).pool) := by
  induction ids generalizing b with
  | nil => rfl
  | cons id ids ih =>
    have hrest := ih (b.closeHeld id) fun id' h' => by
      rw [closeHeld_contains]
      exact h id' (List.mem_cons_of_mem id h')
    rw [closeHeld_pool (h id List.mem_cons_self)] at hrest
    rw [List.map_cons, Pool.run_cons, List.foldl_cons]
    simp only [Pool.step, hrest, Log.none_append]

theorem pool_step (b : Switchboard) (e : Event) :
    b.pool.run (b.poolEvents e) = (.ofOut (b.step e).1, (b.step e).2.pool) := by
  cases e with
  | openSession => exact Pool.run_single _ _
  | drop id =>
    simp only [poolEvents, step]
    by_cases h : b.sessions.contains id = true
    · rw [if_pos h, if_pos h]; exact Pool.run_single _ _
    · rw [if_neg h, if_neg h]; rfl
  | request id r =>
    simp only [poolEvents, step]
    split <;> rfl
  | close id =>
    obtain h | ⟨s, h⟩ := Option.eq_none_or_eq_some (b.sessions.get? id)
    · simp only [poolEvents, step, SortedMap.contains, h]
      rfl
    · simp only [poolEvents, step, SortedMap.contains, h]
      exact Pool.run_single _ _
  | insert r => rfl
  | erase id => rfl
  | apply ops => rfl
  | signal sig => exact pool_tellAll sig b.prune b.present
  | signalTo id sig =>
    have htell := pool_tell b sig id
    simp only [poolEvents, step]
    cases h : b.sessions.get? id with
    | none =>
      rw [tell_none h] at htell
      exact htell
    | some s => exact htell
  | work w outcome => exact Pool.run_single _ _
  | drain t => exact Pool.run_single _ _
  | shutdown =>
    have hheld : ∀ id ∈ b.present, b.prune.sessions.contains id = true := fun id hid => (List.mem_filter.mp hid).2
    simp only [poolEvents, step, shutdown_eq, Pool.run_append, Pool.run_single]
    rw [show b.pool = b.prune.pool from rfl, pool_closeAll b.prune b.present hheld]
    rfl

/-- What a run is to the pool. -/
def poolRun (b : Switchboard) : List Event → List Pool.Event
  | [] => []
  | e :: es => b.poolEvents e ++ (b.step e).2.poolRun es

theorem run_poolRun (b : Switchboard) (es : List Event) :
    b.pool.run (b.poolRun es) = (.ofOuts (b.run es).1, (b.run es).2.pool) := by
  induction es generalizing b with
  | nil => rfl
  | cons e es ih =>
    rw [poolRun, Pool.run_append, pool_step, ih]
    rfl

/-- The pool of a node goes through a run of its own, with the same log. -/
theorem pool_run (b : Switchboard) (es : List Event) :
    ∃ pes, b.pool.run pes = (.ofOuts (b.run es).1, (b.run es).2.pool) :=
  ⟨b.poolRun es, run_poolRun b es⟩

/-- The states of the pool in a run: around each event, and between the offers of one signal. -/
def Passes (b : Switchboard) (es : List Event) (p : Pool) : Prop :=
  ∃ pes, pes <+: b.poolRun es ∧ (b.pool.run pes).2 = p

theorem passes_end (b : Switchboard) (es : List Event) : Passes b es (b.run es).2.pool :=
  ⟨b.poolRun es, List.prefix_rfl, by rw [run_poolRun]⟩

end Switchboard

end LedgerWatch
