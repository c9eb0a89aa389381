/-
  LedgerWatch.Proofs.Switchboard.Shutdown — after a shutdown nobody is called any more.

  `shutdown_is_final`: take any run of a node, shut it down, and go on with any events
  whatever. No callback is called, neither by the shutdown nor ever after. The sessions
  held at that moment are closed with no callback left to them (`ClosesDown`), what was
  queued is gone, and whatever is offered later is refused (`Refuses`), which is counted
  if the session is open. A session opened after the shutdown is open until it is closed
  (`isOpen_kept`).

  A batch of a session that was opened after the shutdown and closed again is refused
  without a count (`refused_without_count`).
-/

import LedgerWatch.Proofs.Delivery.Shutdown
import LedgerWatch.Proofs.Switchboard.Isolation
import LedgerWatch.Proofs.Switchboard.Roster

namespace LedgerWatch

/-- No callback is left. -/
structure Subscriptions.Silenced (s : Subscriptions) : Prop where
  update : s.update = none
  pending : s.pending = none
  block : s.block = none
  markets : ∀ m, s.marketCallback? m = none

theorem Subscriptions.silenced_tearDown (s : Subscriptions) : s.tearDown.Silenced := ⟨rfl, rfl, rfl, fun _ => rfl⟩

namespace Switchboard

/-! ## Who is open -/

/-- A session stays open as long as nothing closes it. -/
theorem isOpen_kept {b : Switchboard} (hb : Enrolled b) {i : Nat} (hi : b.pool.isOpen i = true) {es : List Event}
    (hes : ∀ e ∈ es, closes i e = false) : (b.run es).2.pool.isOpen i = true := by
  induction es generalizing b with
  | nil => exact hi
  | cons e es ih =>
    have hstep : (b.step e).2.pool.isOpen i = true := by
      rw [isOpen_step hb, hi, hes e List.mem_cons_self, Bool.and_false]
      rfl
    exact ih (enrolled_step b e hb) hstep fun e' he' => hes e' (List.mem_cons_of_mem e he')

/-- Whoever is open in the end was open all the time. -/
theorem isOpen_passes {b : Switchboard} {es : List Event} {i : Nat} (hend : (b.run es).2.pool.isOpen i = true)
    {p : Pool} (hp : Passes b es p) : p.isOpen i = true := by
  obtain ⟨pes, ⟨rest, hrest⟩, rfl⟩ := hp
  rw [← Bool.not_eq_false]
  intro hclosed
  have hlater := Pool.closed_run hclosed rest
  have hrun := run_poolRun b es
  rw [← hrest, Pool.run_append] at hrun
  have hall : ((b.pool.run pes).2.run rest).2 = (b.run es).2.pool := congrArg Prod.snd hrun
  rw [hall, hend] at hlater
  contradiction

/-- No session is closed before it is opened. -/
def Unused (b : Switchboard) : Prop := ∀ i, b.pool.opened < i → b.pool.isOpen i = true

theorem opened_le_step (b : Switchboard) (e : Event) : b.pool.opened ≤ (b.step e).2.pool.opened := by
  by_cases hopen : e = .openSession
  · subst hopen
    exact Nat.le_succ _
  · exact Nat.le_of_eq (opened_step b hopen).symm

theorem unused_step (b : Switchboard) (e : Event) (h : Enrolled b ∧ Unused b) :
    Enrolled (b.step e).2 ∧ Unused (b.step e).2 := by
  obtain ⟨hb, hunused⟩ := h
  refine ⟨enrolled_step b e hb, ?_⟩
  intro i hi
  have hlt : b.pool.opened < i := Nat.lt_of_le_of_lt (opened_le_step b e) hi
  -- whoever has not been opened is not held, so that there is nobody to close
  have habsent : b.sessions.contains i = false := by
    rw [Bool.eq_false_iff]
    intro hheld
    have hle := hb.numbered i (hb.listed i hheld)
    omega
  rw [isOpen_step hb, hunused i hlt, habsent]
  rfl

theorem unused_run {settings : Settings} {hasRuntime : Bool} {b : Switchboard}
    (h : Switchboard.start settings hasRuntime = .ok b) (es : List Event) : Unused (b.run es).2 := by
  refine (run_keeps unused_step ⟨enrolled_start h, ?_⟩ es).2
  obtain ⟨p, hp, rfl⟩ := start_ok h
  intro i hi
  show p.isOpen i = true
  rw [(Pool.start_ok hp).2]
  rfl

/-! ## The shutdown itself -/

theorem closeHeld_queues (b : Switchboard) (id : Nat) : (b.closeHeld id).pool.queues = b.pool.queues := by
  unfold closeHeld
  split <;> rfl

theorem closeAll_queues (b : Switchboard) (ids : List Nat) : (ids.foldl closeHeld b).pool.queues = b.pool.queues := by
  induction ids generalizing b with
  | nil => rfl
  | cons id ids ih => rw [List.foldl_cons, ih, closeHeld_queues]

/-- What is queued goes down with the workers. -/
theorem log_shutdown (b : Switchboard) : Log.ofOut (b.step .shutdown).1 = ⟨[], [], [], b.pool.queued⟩ := by
  have hqueues := closeAll_queues b.prune b.present
  show (⟨[], [], [], (b.present.foldl closeHeld b.prune).pool.queued⟩ : Log) = _
  rw [Pool.queued, hqueues]
  rfl

theorem stopped_after_shutdown (b : Switchboard) : Pool.Stopped (b.step .shutdown).2.pool :=
  Pool.stopped_shutdown (b.present.foldl closeHeld b.prune).pool

/-- From the node `b` to the node `c` everything is closed down, with the log `l`. -/
structure ClosesDown (b c : Switchboard) (l : Log) : Prop where
  called : l.called = []
  discarded : l.discarded = b.pool.queued
  queued : c.pool.queued = []
  closed : ∀ id s, b.sessions.get? id = some s → c.pool.isOpen id = false
  silenced : ∀ id s, b.sessions.get? id = some s → ∃ s', c.sessions.get? id = some s' ∧ s'.Silenced

theorem closesDown_shutdown {b : Switchboard} (hb : Enrolled b) :
    ClosesDown b (b.step .shutdown).2 (.ofOut (b.step .shutdown).1) := by
  have hlog := log_shutdown b
  refine ⟨?_, ?_, (stopped_after_shutdown b).queued, ?_, ?_⟩
  · rw [hlog]
  · rw [hlog]
  · intro id s hs
    rw [isOpen_step hb, SortedMap.contains, hs]
    exact Bool.and_false _
  · intro id s hs
    refine ⟨s.tearDown, ?_, s.silenced_tearDown⟩
    rw [get?_step, sessionAfter_shutdown hb, hs]
    rfl

/-! ## Afterwards -/

section Afterwards

variable {b : Switchboard} (h : Pool.Stopped b.pool) (es : List Event)

include h

theorem quiet_run : Log.ofOuts (b.run es).1 = .none := by
  have hrun := (Pool.stopped_run h (b.poolRun es)).1
  rwa [run_poolRun] at hrun

theorem stopped_passes {p : Pool} (hp : Passes b es p) : Pool.Stopped p := by
  obtain ⟨pes, -, rfl⟩ := hp
  exact (Pool.stopped_run h pes).2

end Afterwards

/-! ## Before and after -/

/-- Only a shutdown ends the work. -/
theorem poolEvents_ends (b : Switchboard) {e : Event} (he : e ≠ .shutdown) :
    ∀ pe ∈ b.poolEvents e, pe.ends = false := by
  intro pe hpe
  cases e with
  | shutdown => contradiction
  | drop id | close id =>
    simp only [poolEvents] at hpe
    split at hpe
    · rw [List.mem_singleton.mp hpe]
      rfl
    · contradiction
  | request id r | insert r | erase id | apply ops => contradiction
  | signal sig =>
    obtain ⟨id, -, hid⟩ := List.mem_flatMap.mp hpe
    obtain ⟨batch, -, rfl⟩ := List.mem_map.mp hid
    rfl
  | signalTo id sig =>
    obtain ⟨batch, -, rfl⟩ := List.mem_map.mp hpe
    rfl
  | openSession | work w outcome | drain t =>
    rw [List.mem_singleton.mp hpe]
    rfl

theorem poolRun_ends {b : Switchboard} {es : List Event} (hes : Event.shutdown ∉ es) :
    ∀ pe ∈ b.poolRun es, pe.ends = false := by
  induction es generalizing b with
  | nil => exact fun pe hpe => nomatch hpe
  | cons e es ih =>
    rw [List.mem_cons, not_or] at hes
    intro pe hpe
    rcases List.mem_append.mp hpe with hpe | hpe
    · exact poolEvents_ends b (Ne.symm hes.1) pe hpe
    · exact ih hes.2 pe hpe

theorem running_passes {b : Switchboard} (hrun : b.pool.phase = .running) {es : List Event}
    (hes : Event.shutdown ∉ es) {p : Pool} (hp : Passes b es p) : p.phase = .running := by
  obtain ⟨pes, hbefore, rfl⟩ := hp
  exact Pool.running_run hrun fun pe hpe => poolRun_ends hes pe (hbefore.subset hpe)

theorem stopped_since {es : List Event} (hes : Event.shutdown ∈ es) (b : Switchboard) :
    Pool.Stopped (b.run es).2.pool := by
  obtain ⟨before, after, rfl⟩ := List.append_of_mem hes
  rw [run_append]
  exact stopped_passes (stopped_after_shutdown (b.run before).2) after (passes_end _ after)

/-- From the start to the shutdown the workers run. -/
theorem running_until {settings : Settings} {hasRuntime : Bool} {b : Switchboard}
    (h : Switchboard.start settings hasRuntime = .ok b) {es : List Event} (hes : Event.shutdown ∉ es) :
    (b.run es).2.pool.phase = .running := by
  obtain ⟨p, hp, rfl⟩ := start_ok h
  have hstart : p.phase = .running := congrArg Pool.phase (Pool.start_ok hp).2
  exact running_passes hstart hes (passes_end _ es)

/-- How workers that have stopped answer an offer: nothing is queued, and the refusal of an open session's batch
is counted once, on its stream. -/
structure Refuses (p : Pool) (i : Nat) (batch : Batch) : Prop where
  answer : (p.offer i batch).1 = false
  queued : (p.offer i batch).2.queued = []
  counted : p.isOpen i = true → (p.offer i batch).2 = { p with counts := p.counts.drop batch.stream .poolStopped }

theorem refuses_of_stopped {p : Pool} (h : p.Stopped) (i : Nat) (batch : Batch) : Refuses p i batch := by
  refine ⟨?_, (Pool.stopped_offer h i batch).queued, ?_⟩
  · rw [Pool.offer_of_stopped h.phase]
  · intro hopen
    rw [Pool.offer_of_stopped h.phase, if_pos hopen]

/-- A shutdown calls nobody, takes every session's callbacks back and leaves no job queued; and whatever happens
next, nobody is called, nothing is queued, and every batch is refused. The refusals are counted for every session
that has been opened since and not closed again. -/
theorem shutdown_is_final {settings : Settings} {hasRuntime : Bool} {b : Switchboard}
    (h : Switchboard.start settings hasRuntime = .ok b) (es later : List Event) :
    let c := (b.run es).2
    let d := (c.step .shutdown).2
    ClosesDown c d (.ofOut (c.step .shutdown).1) ∧
      Log.ofOuts (d.run later).1 = .none ∧
      (∀ p, Passes d later p → p.queued = [] ∧ ∀ i batch, Refuses p i batch) ∧
      ∀ i, c.pool.opened < i → (∀ e ∈ later, closes i e = false) → ∀ p, Passes d later p → p.isOpen i = true := by
  intro c d
  have hc : Enrolled c := enrolled_run h es
  have hstopped : Pool.Stopped d.pool := stopped_after_shutdown c
  refine ⟨closesDown_shutdown hc, quiet_run hstopped later, ?_, ?_⟩
  · intro p hp
    have hp' : p.Stopped := stopped_passes hstopped later hp
    exact ⟨hp'.queued, refuses_of_stopped hp'⟩
  · intro i hi hlater p hp
    have hopened : d.pool.opened = c.pool.opened := opened_step c (by simp)
    have hd : Enrolled d ∧ Unused d := unused_step c .shutdown ⟨hc, unused_run h es⟩
    exact isOpen_passes (isOpen_kept hd.1 (hd.2 i (hopened ▸ hi)) hlater) hp

/-- A subscriber with a job queued when the node is shut down; another one comes later. -/
def oneQueued : List Event :=
  [.openSession, .request 1 (.subscribePending (some ⟨"a", none⟩)), .signal (.pendingTransaction ⟨0, 0, 0, [], []⟩)]

def oneComesLater : List Event :=
  [.openSession, .request 2 (.subscribePending (some ⟨"b", none⟩)), .signal (.pendingTransaction ⟨1, 0, 0, [], []⟩),
    .drain .faithful]

theorem shutdown_is_final_of_one :
    ∃ b, Switchboard.start .standard true = .ok b ∧
      let c := (b.run oneQueued).2
      let d := (c.step .shutdown).2
      c.pool.queued.length = 1 ∧ ClosesDown c d (.ofOut (c.step .shutdown).1) ∧
        (∀ i batch, Refuses (d.run oneComesLater).2.pool i batch) ∧
        (d.run oneComesLater).2.pool.isOpen 2 = true ∧
        (d.run oneComesLater).2.pool.counts.poolStopped.get .pendingTransactions = 1 := by
  refine ⟨_, rfl, ?_⟩
  obtain ⟨hcloses, -, hrefuses, hopen⟩ := @shutdown_is_final .standard true _ rfl oneQueued oneComesLater
  refine ⟨by decide +kernel, hcloses, (hrefuses _ (passes_end _ _)).2, ?_, by decide +kernel⟩
  refine hopen 2 (by decide +kernel) ?_ _ (passes_end _ _)
  simp [oneComesLater, closes]

/-- Opened after the shutdown, closed, and asking for more. -/
def closedAgain : List Event :=
  [.openSession, .close 1, .request 1 (.subscribePending (some ⟨"a", none⟩))]

/-- Its batch is refused like any other, but no counter tells. -/
theorem refused_without_count :
    ∃ b, Switchboard.start .standard true = .ok b ∧
      let d := (b.step .shutdown).2
      let c := (d.run closedAgain).2
      let after := c.step (.signal (.pendingTransaction ⟨0, 0, 0, [], []⟩))
      (d.run closedAgain).1.filterMap number? = [1] ∧ (offersOf after.1).map (·.session) = [1] ∧
        (Log.ofOut after.1).accepted.length = 0 ∧
        c.pool.counts.poolStopped.get .pendingTransactions = 0 ∧
        after.2.pool.counts.poolStopped.get .pendingTransactions = 0 :=
  ⟨_, rfl, by decide +kernel, by decide +kernel, by decide +kernel, by decide +kernel, by decide +kernel⟩

end Switchboard

end LedgerWatch
