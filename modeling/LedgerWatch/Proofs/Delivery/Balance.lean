/-
  LedgerWatch.Proofs.Delivery.Balance — the counters of a pool balance.

  For each stream, after any run from the start (`balanced_run`):

      taken on = succeeded + failed + dropped, session closed + queued + discarded
      offered  = taken on + dropped, queue full + dropped, workers stopped + late

  where a batch is late if its session is closed by the time it is offered: it is refused
  without a count. What is discarded goes down with the workers, without a count too.

  An offer and the delivery of a job touch the counters of their own stream alone
  (`sameBut_offer`, `sameBut_work`).
-/

import LedgerWatch.Proofs.Delivery.Silence

namespace LedgerWatch.Pool

/-! ## Where the jobs are -/

/-- Jobs that are the same ones for each session are the same ones, but for their order. -/
theorem perm_of_jobsOf {js ks : List Job} (h : ∀ i, jobsOf i js = jobsOf i ks) : js.Perm ks := by
  classical
  refine List.perm_iff_count.mpr fun j => ?_
  have hown : ∀ js : List Job, (jobsOf j.session js).count j = js.count j := by
    intro js
    rw [jobsOf, List.count_filter (by simp)]
  rw [← hown js, ← hown ks, h]

theorem Books.onStream_accepted {p : Pool} {l : Log} (h : Books p l) (s : Stream) :
    onStream s l.accepted =
      onStream s l.called + onStream s l.skipped + onStream s l.discarded + onStream s p.queued := by
  have hperm : l.accepted.Perm (l.called ++ (l.skipped ++ (l.discarded ++ p.queued))) := by
    refine perm_of_jobsOf fun i => ?_
    rw [h.inOrder i, jobsOf_append, jobsOf_append, jobsOf_append, jobsOf_queued h.placed]
  have hcount := hperm.countP_eq fun j => j.batch.stream = s
  rw [onStream, hcount]
  simp only [List.countP_append, onStream]
  omega

/-! ## What was offered -/

/-- The job an event offers, if it does. -/
def Event.offered : Event → List Job
  | .offer i b => [⟨i, b⟩]
  | .openSession | .close _ | .work _ _ | .drain _ | .shutdown | .abandon => []

def offered (es : List Event) : List Job := es.flatMap Event.offered

theorem offered_cons (e : Event) (es : List Event) : offered (e :: es) = e.offered ++ offered es := List.flatMap_cons

/-- The jobs offered for a session that is closed by then. -/
def late (p : Pool) : List Event → List Job
  | [] => []
  | e :: es => e.offered.filter (fun j => !p.isOpen j.session) ++ (p.step e).2.late es

theorem late_append (p : Pool) (es fs : List Event) : p.late (es ++ fs) = p.late es ++ (p.run es).2.late fs := by
  induction es generalizing p with
  | nil => rfl
  | cons e es ih => rw [List.cons_append, late, late, ih, List.append_assoc, run_cons]

/-- Where nothing closes on the way, the late ones are those of sessions closed before. -/
theorem late_of_open {p : Pool} {es : List Event} (h : ∀ e ∈ es, ∀ i, e.closes i = false) :
    p.late es = (offered es).filter fun j => !p.isOpen j.session := by
  induction es generalizing p with
  | nil => rfl
  | cons e es ih =>
    have hopen : ∀ i, (p.step e).2.isOpen i = p.isOpen i := by
      intro i
      rw [isOpen_step, h e List.mem_cons_self i]
      exact Bool.and_true _
    rw [late, ih fun e' he' => h e' (List.mem_cons_of_mem e he'), offered_cons, List.filter_append]
    simp only [hopen]

theorem late_of_none {p : Pool} {es : List Event} (h : offered es = []) : p.late es = [] := by
  induction es generalizing p with
  | nil => rfl
  | cons e es ih =>
    rw [offered_cons, List.append_eq_nil_iff] at h
    rw [late, h.1, ih h.2]
    rfl

/-- The offers counted on a stream. -/
def answered (c : DeliveryCounts) (s : Stream) : Nat := c.scheduled.get s + c.queueFull.get s + c.poolStopped.get s

theorem answered_deliver (p : Pool) (c : DeliveryCounts) (j : Job) (outcome : Option DeliveryError) (s : Stream) :
    answered (p.deliver c j outcome) s = answered c s := by
  unfold deliver
  split
  · cases outcome <;> rfl
  · rfl

theorem answered_settle (p : Pool) (t : Transport) (n : Nat) (c : DeliveryCounts) (js : List Job) (s : Stream) :
    answered (settle p t n c js) s = answered c s := by
  induction js generalizing n c with
  | nil => rfl
  | cons j js ih => rw [settle, ih, answered_deliver]

theorem answered_offer (p : Pool) (i : Nat) (b : Batch) (s : Stream) :
    answered (p.offer i b).2.counts s + onStream s (p.late [.offer i b]) =
      answered p.counts s + onStream s [⟨i, b⟩] := by
  unfold offer answered
  by_cases hopen : p.isOpen i = true
  case neg => simp [late, Event.offered, hopen]
  by_cases hstop : p.phase = .stopped
  · simp [late, Event.offered, hopen, hstop, DeliveryCounts.drop, onStream_single]
    omega
  by_cases hfull : p.capacity ≤ (p.queueOf i).size
  · simp [late, Event.offered, hopen, hstop, hfull, DeliveryCounts.drop, onStream_single]
    omega
  · simp [late, Event.offered, hopen, hstop, hfull, DeliveryCounts.schedule, onStream_single]
    omega

theorem answered_step (p : Pool) (e : Event) (s : Stream) :
    answered (p.step e).2.counts s + onStream s (p.late [e]) = answered p.counts s + onStream s e.offered := by
  cases e with
  | offer i b => exact answered_offer p i b s
  | work w outcome =>
    show answered (p.work w outcome).2.counts s = answered p.counts s
    unfold work
    split
    · exact answered_deliver p p.counts _ outcome s
    · rfl
  | drain t =>
    show answered (p.drain t).2.counts s = answered p.counts s
    unfold drain
    split
    · exact answered_settle p t 0 p.counts p.queued s
    · rfl
    · rfl
  | abandon =>
    show answered p.abandon.counts s = answered p.counts s
    unfold abandon
    split <;> rfl
  | openSession | close i | shutdown => rfl

theorem answered_run (p : Pool) (es : List Event) (s : Stream) :
    answered (p.run es).2.counts s + onStream s (p.late es) = answered p.counts s + onStream s (offered es) := by
  induction es generalizing p with
  | nil => rfl
  | cons e es ih =>
    have hstep := answered_step p e s
    have hrest := ih (p.step e).2
    rw [late, late, List.append_nil] at hstep
    show answered ((p.step e).2.run es).2.counts s + onStream s (p.late (e :: es)) = _
    rw [late, offered_cons, onStream_append, onStream_append]
    omega

/-! ## The balance -/

/-- The counters of a pool with the log `l`, to which the jobs `offers` were offered, `late` of them too late. -/
structure Balanced (p : Pool) (l : Log) (offers late : List Job) : Prop where
  taken : ∀ s, p.counts.scheduled.get s =
    p.counts.delivered.get s + p.counts.failures.get s + p.counts.sessionClosed.get s + onStream s p.queued
      + onStream s l.discarded
  offers : ∀ s, onStream s offers =
    p.counts.scheduled.get s + p.counts.queueFull.get s + p.counts.poolStopped.get s + onStream s late

/-- From counters at zero. -/
theorem balanced_run {p : Pool} (h : Books p .none) (hzero : p.counts = .zero) (es : List Event) :
    Balanced (p.run es).2 (p.run es).1 (offered es) (p.late es) := by
  have hbooks := books_run h es
  have hcounted := counted_run p es
  rw [Log.none_append] at hbooks
  rw [hzero] at hcounted
  constructor
  · intro s
    have hscheduled := hcounted.scheduled s
    have hcalled := hcounted.called s
    have hskipped := hcounted.skipped s
    have haccepted := hbooks.onStream_accepted s
    simp only [DeliveryCounts.zero, PerStream.get_zero] at hscheduled hcalled hskipped
    omega
  · intro s
    have hanswered := answered_run p es s
    rw [hzero] at hanswered
    simp only [answered, DeliveryCounts.zero, PerStream.get_zero] at hanswered
    omega

/-! ## Each stream for itself -/

/-- No counter differs but on one stream. -/
structure SameBut (s : Stream) (c d : DeliveryCounts) : Prop where
  scheduled : ∀ t, t ≠ s → d.scheduled.get t = c.scheduled.get t
  delivered : ∀ t, t ≠ s → d.delivered.get t = c.delivered.get t
  failures : ∀ t, t ≠ s → d.failures.get t = c.failures.get t
  queueFull : ∀ t, t ≠ s → d.queueFull.get t = c.queueFull.get t
  poolStopped : ∀ t, t ≠ s → d.poolStopped.get t = c.poolStopped.get t
  sessionClosed : ∀ t, t ≠ s → d.sessionClosed.get t = c.sessionClosed.get t

theorem SameBut.refl (s : Stream) (c : DeliveryCounts) : SameBut s c c :=
  ⟨fun _ _ => rfl, fun _ _ => rfl, fun _ _ => rfl, fun _ _ => rfl, fun _ _ => rfl, fun _ _ => rfl⟩

theorem get_bump_ne (c : PerStream) {s t : Stream} (h : t ≠ s) : (c.bump s).get t = c.get t := by
  rw [PerStream.get_bump, if_neg (Ne.symm h), Nat.add_zero]

theorem sameBut_drop (c : DeliveryCounts) (s : Stream) (reason : DropReason) : SameBut s c (c.drop s reason) := by
  have h := SameBut.refl s c
  cases reason with
  | queueFull => exact { h with queueFull := fun t ht => get_bump_ne c.queueFull ht }
  | poolStopped => exact { h with poolStopped := fun t ht => get_bump_ne c.poolStopped ht }
  | sessionClosed => exact { h with sessionClosed := fun t ht => get_bump_ne c.sessionClosed ht }

/-- An offer counts on its own stream. -/
theorem sameBut_offer (p : Pool) (i : Nat) (b : Batch) : SameBut b.stream p.counts (p.offer i b).2.counts := by
  unfold offer
  split
  · exact .refl b.stream p.counts
  split
  · exact sameBut_drop p.counts b.stream .poolStopped
  split
  · exact sameBut_drop p.counts b.stream .queueFull
  · exact { SameBut.refl b.stream p.counts with scheduled := fun t ht => get_bump_ne p.counts.scheduled ht }

/-- So does a delivery. -/
theorem sameBut_deliver (p : Pool) (c : DeliveryCounts) (j : Job) (outcome : Option DeliveryError) :
    SameBut j.batch.stream c (p.deliver c j outcome) := by
  have h := SameBut.refl j.batch.stream c
  unfold deliver
  split
  · cases outcome with
    | none => exact { h with delivered := fun t ht => get_bump_ne c.delivered ht }
    | some e => exact { h with failures := fun t ht => get_bump_ne c.failures ht }
  · exact sameBut_drop c j.batch.stream .sessionClosed

/-- A turn counts on the stream of the job it takes, and not at all if it takes none. -/
theorem sameBut_work (p : Pool) (w : Nat) (outcome : Option DeliveryError) :
    (p.work w outcome).2.counts = p.counts ∧ (p.work w outcome).1 = ⟨[], [], []⟩ ∨
      ∃ j, (p.work w outcome).1.called ++ (p.work w outcome).1.skipped = [j] ∧
        SameBut j.batch.stream p.counts (p.work w outcome).2.counts := by
  by_cases hrun : p.phase = .running
  case neg => exact .inl (by rw [work_of_not_running hrun]; exact ⟨rfl, rfl⟩)
  cases hw : p.queueAt w with
  | nil => exact .inl (by rw [work_nil hw]; exact ⟨rfl, rfl⟩)
  | cons j js =>
    right
    rw [work_cons hrun hw]
    refine ⟨j, ?_, sameBut_deliver p p.counts j outcome⟩
    by_cases hopen : p.isOpen j.session = true
    · simp [hopen]
    · simp [hopen]

end LedgerWatch.Pool
