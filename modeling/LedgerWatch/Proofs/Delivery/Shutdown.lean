/-
  LedgerWatch.Proofs.Delivery.Shutdown — when the workers have stopped.

  A pool runs until it is told to stop (`running_run`). Workers that have stopped leave
  empty queues behind (`stopped_shutdown`), and from then on nothing is taken on, called,
  skipped or discarded, whatever else is asked of the pool (`stopped_run`).

  A batch offered to stopped workers is refused. If its session is open it is counted as
  dropped for that reason, and the pool is otherwise as it was (`offer_of_stopped`).
-/

import LedgerWatch.Proofs.Delivery.Order

namespace LedgerWatch.Pool

/-- Whether an event ends the work. -/
def Event.ends : Event → Bool
  | .shutdown | .abandon => true
  | .openSession | .close _ | .offer _ _ | .work _ _ | .drain _ => false

theorem running_step {p : Pool} (hp : p.phase = .running) {e : Event} (he : e.ends = false) :
    (p.step e).2.phase = .running := by
  cases e with
  | openSession | close i => exact hp
  | offer i b =>
    simp only [step, offer]
    repeat' split
    all_goals exact hp
  | work w outcome =>
    show (p.work w outcome).2.phase = .running
    rcases work_cases p w outcome with hc | ⟨j, js, q, -, -, ha, -, hc⟩
    · rw [hc]
      exact hp
    · rw [hc]
      exact ha.phase.trans hp
  | drain t =>
    simp only [step, drain, hp]
    exact hp
  | shutdown | abandon => contradiction

theorem running_run {p : Pool} (hp : p.phase = .running) {es : List Event} (hes : ∀ e ∈ es, e.ends = false) :
    (p.run es).2.phase = .running := by
  induction es generalizing p with
  | nil => exact hp
  | cons e es ih =>
    have hstep : (p.step e).2.phase = .running := running_step hp (hes e List.mem_cons_self)
    exact ih hstep fun e' he' => hes e' (List.mem_cons_of_mem e he')

/-- The workers have stopped, and nothing is left for them. -/
structure Stopped (p : Pool) : Prop where
  phase : p.phase = .stopped
  queued : p.queued = []

theorem stopped_shutdown (p : Pool) : Stopped p.shutdown.2 := ⟨rfl, queued_emptied p⟩

theorem offer_of_stopped {p : Pool} (hp : p.phase = .stopped) (i : Nat) (b : Batch) :
    p.offer i b = (false, if p.isOpen i then { p with counts := p.counts.drop b.stream .poolStopped } else p) := by
  unfold offer
  by_cases hopen : p.isOpen i = true
  · simp [hopen, hp]
  · simp [hopen]

theorem stopped_offer {p : Pool} (h : Stopped p) (i : Nat) (b : Batch) : Stopped (p.offer i b).2 := by
  rw [offer_of_stopped h.phase]
  split
  · exact ⟨h.phase, h.queued⟩
  · exact h

theorem stopped_step {p : Pool} (h : Stopped p) (e : Event) : (p.step e).1 = .none ∧ Stopped (p.step e).2 := by
  cases e with
  | openSession | close i => exact ⟨rfl, h.phase, h.queued⟩
  | offer i b =>
    refine ⟨?_, stopped_offer h i b⟩
    simp only [step, offer_of_stopped h.phase]
    rfl
  | work w outcome =>
    have hidle : p.phase ≠ .running := by simp [h.phase]
    simp only [step, work_of_not_running hidle]
    exact ⟨rfl, h⟩
  | drain t =>
    simp only [step, drain, h.phase]
    exact ⟨rfl, h⟩
  | shutdown =>
    refine ⟨?_, stopped_shutdown p⟩
    simp only [step, shutdown, h.queued]
    rfl
  | abandon =>
    have hidle : p.phase ≠ .running := by simp [h.phase]
    simp only [step, abandon, if_neg hidle]
    exact ⟨trivial, h⟩

/-- Nothing is heard of a pool whose workers have stopped. -/
theorem stopped_run {p : Pool} (h : Stopped p) (es : List Event) : (p.run es).1 = .none ∧ Stopped (p.run es).2 := by
  induction es generalizing p with
  | nil => exact ⟨rfl, h⟩
  | cons e es ih =>
    obtain ⟨hlog, hstep⟩ := stopped_step h e
    obtain ⟨hlogs, hrun⟩ := ih hstep
    refine ⟨?_, hrun⟩
    rw [run_cons]
    show (p.step e).1.append ((p.step e).2.run es).1 = .none
    rw [hlog, hlogs]
    rfl

end LedgerWatch.Pool
