/-
  LedgerWatch.Proofs.Delivery.Silence — a closed session stays silent.

  Closing is for good (`closed_run`), it is asked for when a batch is offered
  (`offer_of_closed`) and again when a job is taken from its queue (`work_of_closed`).
  So from the close on, over any run (`silent_run`):

      queued at the close = skipped, then discarded, then still queued

  as lists of the session's jobs: none of them is called, none joins them, and each one
  that is skipped is counted once as dropped for a closed session.
-/

import LedgerWatch.Proofs.Delivery.Counts
import LedgerWatch.Proofs.Delivery.Order

namespace LedgerWatch.Pool

theorem isOpen_eq_false_iff {p : Pool} {i : Nat} : p.isOpen i = false ↔ i ∈ p.closed := by
  simp [isOpen]

theorem isOpen_close (p : Pool) (i : Nat) : (p.close i).isOpen i = false :=
  isOpen_eq_false_iff.mpr List.mem_cons_self

/-! ## Closing is for good -/

/-- Whether an event closes a session. -/
def Event.closes (i : Nat) : Event → Bool
  | .close k => k = i
  | .openSession | .offer _ _ | .work _ _ | .drain _ | .shutdown | .abandon => false

theorem isOpen_step (p : Pool) (i : Nat) (e : Event) : (p.step e).2.isOpen i = (p.isOpen i && !e.closes i) := by
  cases e with
  | close k =>
    show (!(k :: p.closed).contains i) = (!p.closed.contains i && !decide (k = i))
    rw [List.contains_cons, Bool.not_or, Bool.and_comm]
    simp only [eq_comm (a := i), Bool.beq_eq_decide_eq]
  | offer k b =>
    simp only [step, offer]
    repeat' split
    all_goals simp [Event.closes, isOpen]
  | work w outcome =>
    simp only [step, Event.closes, Bool.not_false, Bool.and_true]
    obtain hc | ⟨j, js, q, -, -, ha, -, hc⟩ := work_cases p w outcome
    · rw [hc]
    · rw [hc, ha.isOpen]
  | drain t => simp only [step, drain]; split <;> simp [Event.closes, isOpen, emptied]
  | abandon => simp only [step, abandon]; split <;> simp [Event.closes, isOpen]
  | openSession | shutdown => exact (Bool.and_true _).symm

/-- A session is open until it is closed. -/
theorem isOpen_run (p : Pool) (i : Nat) (es : List Event) :
    (p.run es).2.isOpen i = (p.isOpen i && !es.any (Event.closes i)) := by
  induction es generalizing p with
  | nil => exact (Bool.and_true _).symm
  | cons e es ih =>
    rw [List.any_cons, Bool.not_or, ← Bool.and_assoc, ← isOpen_step]
    exact ih _

theorem closed_step (p : Pool) {i : Nat} (e : Event) (h : p.isOpen i = false) : (p.step e).2.isOpen i = false := by
  rw [isOpen_step, h, Bool.false_and]

theorem closed_run {p : Pool} {i : Nat} (h : p.isOpen i = false) (es : List Event) : (p.run es).2.isOpen i = false := by
  rw [isOpen_run, h, Bool.false_and]

/-! ## Both ends of the queue ask -/

theorem offer_of_closed {p : Pool} {i : Nat} (h : p.isOpen i = false) (b : Batch) : p.offer i b = (false, p) := by
  simp [offer, h]

theorem work_of_closed {p : Pool} (hp : p.phase = .running) {w : Nat} {j : Job} {js : List Job}
    (hw : p.queueAt w = j :: js) (hj : p.isOpen j.session = false) (outcome : Option DeliveryError) :
    p.work w outcome = (⟨[], [j], []⟩,
      { p with queues := p.queues.set w js.toArray, counts := p.counts.drop j.batch.stream .sessionClosed }) := by
  rw [work_cons hp hw, hj]
  simp [deliver, hj]

theorem accepted_of_closed {p : Pool} {i : Nat} (h : p.isOpen i = false) (e : Event) :
    jobsOf i (p.step e).1.accepted = [] := by
  cases e with
  | offer k b =>
    by_cases hk : k = i
    · subst hk
      simp [step, offer_of_closed h]
    · simp only [step]
      split
      · exact jobsOf_single_ne hk
      · rfl
  | openSession | close k | work w outcome | drain t | shutdown | abandon => rfl

theorem called_of_closed {p : Pool} {i : Nat} (h : p.isOpen i = false) (e : Event) :
    jobsOf i (p.step e).1.called = [] := by
  refine jobsOf_eq_nil fun j hj hji => ?_
  have hopen := (heeds_step p e).1 j hj
  rw [hji, h] at hopen
  contradiction

theorem quiet_run {p : Pool} {i : Nat} (h : p.isOpen i = false) (es : List Event) :
    jobsOf i (p.run es).1.accepted = [] ∧ jobsOf i (p.run es).1.called = [] := by
  induction es generalizing p with
  | nil => exact ⟨rfl, rfl⟩
  | cons e es ih =>
    obtain ⟨ha, hc⟩ := ih (closed_step p e h)
    rw [run_cons]
    simp only [Log.append, jobsOf_append, accepted_of_closed h, called_of_closed h, ha, hc, List.append_nil, and_self]

/-! ## What becomes of the jobs still queued -/

/-- Where jobs have been discarded, none of them waits and none will be taken any more. -/
theorem Books.waiting_discarded {p : Pool} {l : Log} (h : Books p l) (hne : l.discarded ≠ []) (i : Nat) :
    p.waiting i = [] := by
  rw [← jobsOf_queued h.placed, h.stopped (h.discarded hne), jobsOf_nil]

theorem queued_of_closed {p : Pool} {l : Log} (h : Books p l) {i : Nat} (hi : p.isOpen i = false) (es : List Event) :
    jobsOf i p.queued = jobsOf i (p.run es).1.skipped ++
      (jobsOf i (p.run es).1.discarded ++ jobsOf i (p.run es).2.queued) := by
  have hafter := books_run h es
  obtain ⟨ha, hc⟩ := quiet_run hi es
  rw [jobsOf_queued h.placed, jobsOf_queued hafter.placed]
  -- the books before and after have the same jobs taken on and called, so the rest of them agrees
  have heq := hafter.inOrder i
  simp only [Log.append, jobsOf_append, ha, hc, List.append_nil, h.inOrder i, List.append_assoc] at heq
  have hrest := List.append_cancel_left (List.append_cancel_left heq)
  by_cases hd : l.discarded = []
  · simpa [hd] using hrest
  · rw [h.waiting_discarded hd] at hrest ⊢
    have hlen := congrArg List.length hrest
    simp only [List.length_append, List.length_nil] at hlen
    have hskip : jobsOf i (p.run es).1.skipped = [] := List.length_eq_zero_iff.mp (by omega)
    have hdisc : jobsOf i (p.run es).1.discarded = [] := List.length_eq_zero_iff.mp (by omega)
    have hwait : (p.run es).2.waiting i = [] := List.length_eq_zero_iff.mp (by omega)
    rw [hskip, hdisc, hwait]
    rfl

/-- From the pool `p`, where session `i` is closed, to the pool `q`, over a run with the log `l`, nothing is heard
of the session. -/
structure Silent (i : Nat) (p : Pool) (l : Log) (q : Pool) : Prop where
  closed : q.isOpen i = false
  called : jobsOf i l.called = []
  accepted : jobsOf i l.accepted = []
  /-- Each job queued for it is skipped, or goes down with the workers, or is still queued. -/
  queued : jobsOf i p.queued = jobsOf i l.skipped ++ (jobsOf i l.discarded ++ jobsOf i q.queued)
  /-- Jobs go down with the workers alone. -/
  discarded : q.phase ≠ .stopped → l.discarded = []
  /-- Each job skipped is counted once. -/
  counted : ∀ s, q.counts.sessionClosed.get s = p.counts.sessionClosed.get s + onStream s l.skipped
  /-- A worker whose next job is the session's skips it and counts it. -/
  dequeued : ∀ w j js outcome, q.phase = .running → q.queueAt w = j :: js → j.session = i →
    q.work w outcome = (⟨[], [j], []⟩,
      { q with queues := q.queues.set w js.toArray, counts := q.counts.drop j.batch.stream .sessionClosed })
  refused : ∀ b, q.offer i b = (false, q)

theorem silent_run {p : Pool} {l : Log} (h : Books p l) {i : Nat} (hi : p.isOpen i = false) (es : List Event) :
    Silent i p (p.run es).1 (p.run es).2 := by
  have hclosed := closed_run hi es
  obtain ⟨ha, hc⟩ := quiet_run hi es
  refine ⟨hclosed, hc, ha, queued_of_closed h hi es, fun hp => ?_, (counted_run p es).skipped,
    fun w j js outcome hp hw hj => work_of_closed hp hw (hj ▸ hclosed) outcome, offer_of_closed hclosed⟩
  have hnone := (books_run h es).discarded_running hp
  exact (List.append_eq_nil_iff.mp hnone).2

end LedgerWatch.Pool
