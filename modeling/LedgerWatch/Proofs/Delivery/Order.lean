/-
  LedgerWatch.Proofs.Delivery.Order — each session's batches are delivered in order.

  A pool keeps books (`Books`): the jobs taken on for one session are, in the order they
  were offered, those called, then those taken from the queue after the session closed,
  then those discarded with the workers, then those that wait. A job stands once in
  exactly one of the four, with the callback and the payload it was offered with.

  `books_step`: every event keeps the books. `books_run`: so does every run from the
  start, whatever happens between the offers.
-/

import LedgerWatch.Proofs.Delivery.Runs

namespace LedgerWatch.Pool

/-- Every job waits with its session's worker. -/
def Placed (p : Pool) : Prop := ∀ w, ∀ j ∈ p.queueAt w, p.shard j.session = w

structure Books (p : Pool) (l : Log) : Prop where
  manned : 0 < p.workers
  placed : Placed p
  inOrder : ∀ i, jobsOf i l.accepted =
    jobsOf i l.called ++ (jobsOf i l.skipped ++ (jobsOf i l.discarded ++ p.waiting i))
  /-- Only a closed session has its jobs skipped. -/
  skipped : ∀ j ∈ l.skipped, p.isOpen j.session = false
  /-- Jobs are discarded when the workers stop, and none is left. -/
  discarded : l.discarded ≠ [] → p.phase = .stopped
  stopped : p.phase = .stopped → p.queued = []

/-! ## What is queued -/

theorem shard_lt {p : Pool} (h : 0 < p.workers) (i : Nat) : p.shard i < p.queues.length := Nat.mod_lt i h

theorem jobsOf_queueAt_ne {p : Pool} (hp : Placed p) {i w : Nat} (h : w ≠ p.shard i) :
    jobsOf i (p.queueAt w) = [] := by
  refine jobsOf_eq_nil fun j hj hi => h ?_
  rw [← hi]
  exact (hp w j hj).symm

theorem jobsOf_queued {p : Pool} (hp : Placed p) (i : Nat) : jobsOf i p.queued = p.waiting i :=
  jobsOf_queues p.queues (p.shard i) fun _ hv => jobsOf_queueAt_ne hp hv

@[simp] theorem queueAt_emptied (p : Pool) (w : Nat) : p.emptied.queueAt w = [] := by
  simp only [queueAt, emptied, List.getD_eq_getElem?_getD, List.getElem?_map]
  cases p.queues[w]? <;> rfl

@[simp] theorem queued_emptied (p : Pool) : p.emptied.queued = [] := by
  simp [queued, emptied]

theorem books_append_none {p : Pool} {l : Log} (h : Books p l) : Books p (l.append .none) := by
  rwa [Log.append_none]

/-- Two pools that differ at most in their queues and their counts. -/
structure Alike (p q : Pool) : Prop where
  closed : q.closed = p.closed
  phase : q.phase = p.phase
  workers : q.workers = p.workers

theorem Alike.isOpen {p q : Pool} (h : Alike p q) (i : Nat) : q.isOpen i = p.isOpen i := by
  rw [Pool.isOpen, h.closed, Pool.isOpen]

theorem Alike.shard {p q : Pool} (h : Alike p q) (i : Nat) : q.shard i = p.shard i := by
  rw [Pool.shard, h.workers, Pool.shard]

theorem books_of_alike {p q : Pool} {l : Log} (h : Books p l) (ha : Alike p q) (hq : q.queues = p.queues) :
    Books q l := by
  have hat : ∀ w, q.queueAt w = p.queueAt w := fun w => by rw [queueAt, hq, queueAt]
  refine ⟨by rw [ha.workers]; exact h.manned, fun w j hj => ?_, fun i => ?_, fun j hj => ?_, fun hne => ?_,
    fun hstop => ?_⟩
  · rw [hat] at hj
    rw [ha.shard]
    exact h.placed w j hj
  · rw [waiting, ha.shard, hat]
    exact h.inOrder i
  · rw [ha.isOpen]
    exact h.skipped j hj
  · rw [ha.phase]
    exact h.discarded hne
  · rw [ha.phase] at hstop
    rw [queued, hq]
    exact h.stopped hstop

/-! ## An offer -/

theorem offer_cases {p : Pool} (hm : 0 < p.workers) (i : Nat) (b : Batch) :
    (∃ q, p.offer i b = (false, q) ∧ Alike p q ∧ q.queues = p.queues) ∨
      (∃ q, p.offer i b = (true, q) ∧ p.phase ≠ .stopped ∧ Alike p q ∧
        ∀ w, q.queueAt w = if w = p.shard i then p.queueAt w ++ [⟨i, b⟩] else p.queueAt w) := by
  unfold offer
  by_cases hopen : p.isOpen i = true
  case neg => exact .inl ⟨p, by simp [hopen], ⟨rfl, rfl, rfl⟩, rfl⟩
  by_cases hstop : p.phase = .stopped
  · exact .inl ⟨{ p with counts := p.counts.drop b.stream .poolStopped }, by simp [hopen, hstop],
      ⟨rfl, rfl, rfl⟩, rfl⟩
  by_cases hfull : p.capacity ≤ (p.queueOf i).size
  · exact .inl ⟨{ p with counts := p.counts.drop b.stream .queueFull }, by simp [hopen, hstop, hfull],
      ⟨rfl, rfl, rfl⟩, rfl⟩
  refine .inr ⟨{ p with
    queues := p.queues.modify (p.shard i) (·.push ⟨i, b⟩)
    counts := p.counts.schedule b.stream }, by simp [hopen, hstop, hfull], hstop, ⟨rfl, rfl, ?_⟩, fun w => ?_⟩
  · simp [workers]
  · unfold queueAt
    rw [getD_modify]
    by_cases hw : w = p.shard i
    · simp [hw, shard_lt hm i]
    · simp [hw]

section Push

variable {p q : Pool} {i : Nat} {b : Batch}
  (ha : Alike p q) (hq : ∀ w, q.queueAt w = if w = p.shard i then p.queueAt w ++ [⟨i, b⟩] else p.queueAt w)
include ha hq

theorem placed_push (h : Placed p) : Placed q := by
  intro w j hj
  rw [hq] at hj
  rw [ha.shard]
  by_cases hw : w = p.shard i
  · rw [if_pos hw, List.mem_append] at hj
    rcases hj with hj | hj
    · exact h w j hj
    · rw [List.mem_singleton.mp hj]
      exact hw.symm
  · rw [if_neg hw] at hj
    exact h w j hj

/-- The job offered is the youngest of its session. -/
theorem waiting_push (k : Nat) : q.waiting k = p.waiting k ++ jobsOf k [⟨i, b⟩] := by
  rw [waiting, ha.shard, hq, waiting]
  by_cases hk : p.shard k = p.shard i
  · rw [if_pos hk, jobsOf_append]
  · have hki : i ≠ k := fun hki => hk (by rw [hki])
    rw [if_neg hk, jobsOf_single_ne hki, List.append_nil]

end Push

theorem books_offer {p : Pool} {l : Log} (h : Books p l) (i : Nat) (b : Batch) :
    Books (p.step (.offer i b)).2 (l.append (p.step (.offer i b)).1) := by
  simp only [step]
  obtain ⟨q, hc, ha, hq⟩ | ⟨q, hc, hrun, ha, hq⟩ := offer_cases h.manned i b
  · rw [hc]
    exact books_append_none (books_of_alike h ha hq)
  rw [hc]
  refine ⟨by rw [ha.workers]; exact h.manned, placed_push ha hq h.placed, fun k => ?_, fun j hj => ?_, fun hne => ?_,
    fun hstop => absurd (ha.phase ▸ hstop) hrun⟩
  · simp only [Log.append, if_true, jobsOf_append, List.append_nil, waiting_push ha hq, h.inOrder k,
      List.append_assoc]
  · rw [ha.isOpen]
    exact h.skipped j (by simpa [Log.append] using hj)
  · rw [ha.phase]
    exact h.discarded (by simpa [Log.append] using hne)

/-! ## A turn -/

theorem work_cases (p : Pool) (w : Nat) (outcome : Option DeliveryError) :
    p.work w outcome = (⟨[], [], []⟩, p) ∨
      (∃ j js q, p.phase = .running ∧ p.queueAt w = j :: js ∧ Alike p q ∧
        (∀ v, q.queueAt v = if v = w then js else p.queueAt v) ∧
        p.work w outcome = (if p.isOpen j.session then ⟨[j], [], []⟩ else ⟨[], [j], []⟩, q)) := by
  by_cases hrun : p.phase = .running
  case neg => exact .inl (work_of_not_running hrun w outcome)
  cases hw : p.queueAt w with
  | nil => exact .inl (work_nil hw outcome)
  | cons j js =>
    have hlt : w < p.queues.length := by
      rcases Nat.lt_or_ge w p.queues.length with hlt | hge
      · exact hlt
      · simp [queueAt, List.getD_eq_getElem?_getD, List.getElem?_eq_none hge] at hw
    refine .inr ⟨j, js, { p with queues := p.queues.set w js.toArray, counts := p.deliver p.counts j outcome },
      hrun, rfl, ⟨rfl, rfl, ?_⟩, fun v => ?_, work_cons hrun hw outcome⟩
    · simp [workers]
    · unfold queueAt
      rw [getD_set]
      by_cases hv : v = w
      · simp [hv, hlt]
      · simp [hv]

/-- Nothing of an open session is skipped. -/
theorem Books.skipped_open {p : Pool} {l : Log} (h : Books p l) {i : Nat} (hi : p.isOpen i = true) :
    jobsOf i l.skipped = [] := by
  refine jobsOf_eq_nil fun j hj hji => ?_
  have := h.skipped j hj
  rw [hji, hi] at this
  contradiction

theorem Books.discarded_running {p : Pool} {l : Log} (h : Books p l) (hp : p.phase ≠ .stopped) : l.discarded = [] :=
  Classical.byContradiction fun hne => hp (h.discarded hne)

section Pop

variable {p q : Pool} {w : Nat} {j : Job} {js : List Job}
  (ha : Alike p q) (hw : p.queueAt w = j :: js) (hq : ∀ v, q.queueAt v = if v = w then js else p.queueAt v)
include ha hw hq

theorem placed_pop (h : Placed p) : Placed q := by
  intro v k hk
  rw [hq] at hk
  rw [ha.shard]
  by_cases hv : v = w
  · rw [if_pos hv] at hk
    rw [hv]
    exact h w k (by rw [hw]; exact List.mem_cons_of_mem j hk)
  · rw [if_neg hv] at hk
    exact h v k hk

/-- The job taken is the oldest of its session. -/
theorem waiting_pop (h : Placed p) (k : Nat) : p.waiting k = jobsOf k [j] ++ q.waiting k := by
  have hjw : p.shard j.session = w := h w j (by rw [hw]; exact List.mem_cons_self)
  rw [waiting, waiting, ha.shard, hq]
  by_cases hk : p.shard k = w
  · rw [if_pos hk, hk, hw, ← jobsOf_append, List.singleton_append]
  · have hjk : j.session ≠ k := fun hjk => hk (by rw [← hjk, hjw])
    rw [if_neg hk, jobsOf_single_ne hjk, List.nil_append]

end Pop

theorem books_work {p : Pool} {l : Log} (h : Books p l) (w : Nat) (outcome : Option DeliveryError) :
    Books (p.step (.work w outcome)).2 (l.append (p.step (.work w outcome)).1) := by
  simp only [step]
  obtain hc | ⟨j, js, q, hrun, hw, ha, hq, hc⟩ := work_cases p w outcome
  · rw [hc]
    exact books_append_none h
  rw [hc]
  have hdisc : l.discarded = [] := h.discarded_running (by simp [hrun])
  have hmanned : 0 < q.workers := by rw [ha.workers]; exact h.manned
  have hstopped : q.phase = .stopped → q.queued = [] := fun hstop => by rw [ha.phase, hrun] at hstop; contradiction
  have horder : ∀ k, jobsOf k l.accepted = jobsOf k l.called ++ (jobsOf k l.skipped ++ (jobsOf k [j] ++ q.waiting k)) := by
    intro k
    have ho := h.inOrder k
    rwa [waiting_pop ha hw hq h.placed k, hdisc, jobsOf_nil, List.nil_append] at ho
  by_cases hopen : p.isOpen j.session = true
  · rw [if_pos hopen]
    refine ⟨hmanned, placed_pop ha hw hq h.placed, fun k => ?_, fun k hk => ?_, fun hne => ?_, hstopped⟩
    · simp only [Log.append, Log.ofRun, jobsOf_append, jobsOf_nil, List.append_nil, hdisc, List.nil_append]
      by_cases hk : j.session = k
      · rw [horder, h.skipped_open (hk ▸ hopen)]
        simp
      · rw [horder, jobsOf_single_ne hk]
        simp
    · rw [ha.isOpen]
      exact h.skipped k (by simpa [Log.append, Log.ofRun] using hk)
    · simp [Log.append, Log.ofRun, hdisc] at hne
  · rw [if_neg hopen]
    refine ⟨hmanned, placed_pop ha hw hq h.placed, fun k => ?_, fun k hk => ?_, fun hne => ?_, hstopped⟩
    · simp only [Log.append, Log.ofRun, jobsOf_append, jobsOf_nil, List.append_nil, hdisc, List.nil_append]
      rw [horder, List.append_assoc]
    · rw [ha.isOpen]
      simp only [Log.append, Log.ofRun, List.mem_append, List.mem_singleton] at hk
      rcases hk with hk | rfl
      · exact h.skipped k hk
      · simpa using hopen
    · simp [Log.append, Log.ofRun, hdisc] at hne

/-! ## All workers, and the end -/

theorem books_emptied {p : Pool} {l : Log} (h : Books p l) :
    Books { p.emptied with phase := .stopped } (l.append ⟨[], [], [], p.queued⟩) := by
  have hq : ∀ w, queueAt { p.emptied with phase := .stopped } w = [] := queueAt_emptied p
  refine ⟨by simpa [workers, emptied] using h.manned, fun w j hj => ?_, fun i => ?_,
    fun j hj => ?_, fun _ => rfl, fun _ => queued_emptied p⟩
  · rw [hq] at hj
    contradiction
  · have hnone : waiting { p.emptied with phase := .stopped } i = [] := by rw [waiting, hq, jobsOf_nil]
    simp [Log.append, hnone, jobsOf_queued h.placed, h.inOrder i]
  · exact h.skipped j (by simpa [Log.append] using hj)

theorem books_turns {p : Pool} {l : Log} (h : Books p l) (turns : List (Nat × Option DeliveryError)) :
    Books (p.run (turns.map fun (w, outcome) => .work w outcome)).2
      (l.append (p.run (turns.map fun (w, outcome) => .work w outcome)).1) := by
  induction turns generalizing p l with
  | nil => exact books_append_none h
  | cons t turns ih =>
    rw [List.map_cons, run_cons, ← Log.append_assoc]
    exact ih (books_work h t.1 t.2)

theorem books_drain {p : Pool} {l : Log} (h : Books p l) (t : Transport) :
    Books (p.step (.drain t)).2 (l.append (p.step (.drain t)).1) := by
  cases hp : p.phase with
  | running =>
    obtain ⟨turns, ht⟩ := drain_eq_turns hp t
    rw [← ht]
    exact books_turns h turns
  | abandoned =>
    simp only [step, drain, hp]
    exact books_emptied h
  | stopped =>
    simp only [step, drain, hp]
    exact books_append_none h

theorem books_close {p : Pool} {l : Log} (h : Books p l) (i : Nat) :
    Books (p.step (.close i)).2 (l.append (p.step (.close i)).1) := by
  refine books_append_none ⟨h.manned, h.placed, h.inOrder, fun j hj => ?_, h.discarded, h.stopped⟩
  have hclosed := h.skipped j hj
  simp only [isOpen, Bool.not_eq_false', List.contains_iff_mem] at hclosed
  have hstill : j.session ∈ (p.close i).closed := List.mem_cons_of_mem i hclosed
  simpa [isOpen, step] using hstill

theorem books_abandon {p : Pool} {l : Log} (h : Books p l) :
    Books (p.step .abandon).2 (l.append (p.step .abandon).1) := by
  refine books_append_none ?_
  simp only [step, abandon]
  by_cases hp : p.phase = .running
  · rw [if_pos hp]
    have hdisc : ¬ l.discarded ≠ [] := fun hne => absurd (h.discarded hne) (by simp [hp])
    exact ⟨h.manned, h.placed, h.inOrder, h.skipped, fun hne => absurd hne hdisc, fun hstop => by contradiction⟩
  · rwa [if_neg hp]

theorem books_step {p : Pool} {l : Log} (h : Books p l) (e : Event) : Books (p.step e).2 (l.append (p.step e).1) := by
  cases e with
  | openSession => exact books_append_none ⟨h.manned, h.placed, h.inOrder, h.skipped, h.discarded, h.stopped⟩
  | close i => exact books_close h i
  | offer i b => exact books_offer h i b
  | work w outcome => exact books_work h w outcome
  | drain t => exact books_drain h t
  | shutdown => exact books_emptied h
  | abandon => exact books_abandon h

theorem books_run {p : Pool} {l : Log} (h : Books p l) (es : List Event) :
    Books (p.run es).2 (l.append (p.run es).1) := by
  induction es generalizing p l with
  | nil => exact books_append_none h
  | cons e es ih =>
    rw [run_cons, ← Log.append_assoc]
    exact ih (books_step h e)

theorem workers_of_check {s : DeliverySettings} (h : s.check = .ok ()) : 0 < s.workers := by
  unfold DeliverySettings.check at h
  by_cases h0 : s.workers = 0
  · rw [if_pos h0] at h
    contradiction
  · omega

theorem queueAt_start {s : DeliverySettings} {hasRuntime : Bool} {p : Pool} (h : Pool.start s hasRuntime = .ok p)
    (w : Nat) : p.queueAt w = [] := by
  obtain ⟨-, rfl⟩ := start_ok h
  simp only [queueAt, List.getD_eq_getElem?_getD, List.getElem?_replicate]
  split <;> rfl

/-- A pool starts with nothing on its books. -/
theorem books_start {s : DeliverySettings} {hasRuntime : Bool} {p : Pool} (h : Pool.start s hasRuntime = .ok p) :
    Books p .none := by
  have hq := queueAt_start h
  obtain ⟨hcheck, rfl⟩ := start_ok h
  refine ⟨?_, fun w j hj => ?_, fun i => ?_, fun j hj => by contradiction, fun hne => by contradiction,
    fun hstop => by contradiction⟩
  · simpa [workers] using workers_of_check hcheck
  · rw [hq] at hj
    contradiction
  · rw [waiting, hq]
    rfl

/-- Whether workers have their turn. -/
def Event.isTurn : Event → Bool
  | .work _ _ | .drain _ => true
  | .openSession | .close _ | .offer _ _ | .shutdown | .abandon => false

/-- What is called is a session's that is open then, what is skipped a session's that is closed. -/
def Heeds (p : Pool) (l : Log) : Prop :=
  (∀ j ∈ l.called, p.isOpen j.session = true) ∧ ∀ j ∈ l.skipped, p.isOpen j.session = false

theorem heeds_nothing (p : Pool) {l : Log} (hc : l.called = []) (hs : l.skipped = []) : Heeds p l := by
  rw [Heeds, hc, hs]
  exact ⟨fun j hj => by contradiction, fun j hj => by contradiction⟩

theorem heeds_step (p : Pool) (e : Event) : Heeds p (p.step e).1 := by
  cases e with
  | work w outcome =>
    simp only [step]
    obtain hc | ⟨j, js, q, _, _, _, _, hc⟩ := work_cases p w outcome
    · rw [hc]
      exact heeds_nothing p rfl rfl
    · rw [hc]
      by_cases hopen : p.isOpen j.session = true
      · rw [if_pos hopen]
        refine ⟨fun k hk => ?_, fun k hk => by contradiction⟩
        rwa [List.mem_singleton.mp hk]
      · rw [if_neg hopen]
        refine ⟨fun k hk => by contradiction, fun k hk => ?_⟩
        rw [List.mem_singleton.mp hk]
        simpa using hopen
  | drain t =>
    simp only [step, drain]
    cases p.phase with
    | running => exact ⟨fun j hj => (List.mem_filter.mp hj).2, fun j hj => by simpa using (List.mem_filter.mp hj).2⟩
    | abandoned => exact heeds_nothing p rfl rfl
    | stopped => exact heeds_nothing p rfl rfl
  | openSession | close i | offer i b | shutdown | abandon => exact heeds_nothing p rfl rfl

/-- Only workers call. -/
theorem called_by_turn {p : Pool} {e : Event} (h : (p.step e).1.called ≠ []) : e.isTurn = true := by
  cases e with
  | work w outcome | drain t => rfl
  | openSession | close i | offer i b | shutdown | abandon => exact absurd rfl h

theorem drain_leaves_nothing {p : Pool} (hp : p.phase = .running) (t : Transport) : (p.drain t).2.queued = [] := by
  simp only [drain, hp]
  exact queued_emptied p

end LedgerWatch.Pool
