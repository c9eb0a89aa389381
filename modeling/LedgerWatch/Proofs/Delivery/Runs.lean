/-
  LedgerWatch.Proofs.Delivery.Runs — the runs of a pool.

  A run is any list of events: sessions opened and closed, batches offered, turns of one
  worker, runs of all of them, and the two ends. Its log keeps, each in the order it
  happened, the jobs taken on, the jobs called, those taken from a queue for a session
  that was closed by then, and those discarded with their workers.

  `drain_eq_turns`: a run of all workers is nothing but turns of single ones.
-/

import LedgerWatch.Delivery.Pool

namespace LedgerWatch

structure Log where
  accepted : List Job
  called : List Job
  skipped : List Job
  discarded : List Job

namespace Log

def none : Log := ⟨[], [], [], []⟩

def ofRun (r : Pool.Run) : Log := ⟨[], r.called, r.skipped, r.discarded⟩

def append (a b : Log) : Log :=
  ⟨a.accepted ++ b.accepted, a.called ++ b.called, a.skipped ++ b.skipped, a.discarded ++ b.discarded⟩

@[simp] theorem none_append (l : Log) : Log.none.append l = l := rfl

@[simp] theorem append_none (l : Log) : l.append .none = l := by simp [append, none]

theorem append_assoc (a b c : Log) : (a.append b).append c = a.append (b.append c) := by
  simp [append, List.append_assoc]

end Log

/-- The jobs of one session. -/
def jobsOf (i : Nat) (jobs : List Job) : List Job := jobs.filter fun j => j.session = i

@[simp] theorem jobsOf_nil (i : Nat) : jobsOf i [] = [] := rfl

@[simp] theorem jobsOf_append (i : Nat) (js ks : List Job) : jobsOf i (js ++ ks) = jobsOf i js ++ jobsOf i ks :=
  List.filter_append js ks

theorem jobsOf_eq_nil {i : Nat} {jobs : List Job} (h : ∀ j ∈ jobs, j.session ≠ i) : jobsOf i jobs = [] := by
  simpa [jobsOf] using h

theorem jobsOf_single_ne {i : Nat} {j : Job} (h : j.session ≠ i) : jobsOf i [j] = [] :=
  jobsOf_eq_nil fun _ hk => by rwa [List.mem_singleton.mp hk]

namespace Pool

inductive Event where
  | openSession
  | close (session : Nat)
  | offer (session : Nat) (batch : Batch)
  | work (worker : Nat) (outcome : Option DeliveryError)
  | drain (transport : Transport)
  | shutdown
  | abandon

def step (p : Pool) : Event → Log × Pool
  | .openSession => (.none, p.openSession.2)
  | .close i => (.none, p.close i)
  | .offer i b => (⟨if (p.offer i b).1 then [⟨i, b⟩] else [], [], [], []⟩, (p.offer i b).2)
  | .work w outcome => (.ofRun (p.work w outcome).1, (p.work w outcome).2)
  | .drain transport => (.ofRun (p.drain transport).1, (p.drain transport).2)
  | .shutdown => (.ofRun p.shutdown.1, p.shutdown.2)
  | .abandon => (.none, p.abandon)

def run (p : Pool) : List Event → Log × Pool
  | [] => (.none, p)
  | e :: es => ((p.step e).1.append ((p.step e).2.run es).1, ((p.step e).2.run es).2)

@[simp] theorem run_nil (p : Pool) : p.run [] = (.none, p) := rfl

theorem run_cons (p : Pool) (e : Event) (es : List Event) :
    p.run (e :: es) = ((p.step e).1.append ((p.step e).2.run es).1, ((p.step e).2.run es).2) := rfl

theorem run_single (p : Pool) (e : Event) : p.run [e] = p.step e := by
  rw [run_cons, run_nil, Log.append_none]

theorem run_append (p : Pool) (es fs : List Event) :
    p.run (es ++ fs) = ((p.run es).1.append ((p.run es).2.run fs).1, ((p.run es).2.run fs).2) := by
  induction es generalizing p with
  | nil => rfl
  | cons e es ih => simp only [List.cons_append, run_cons, ih, Log.append_assoc]

theorem start_ok {s : DeliverySettings} {hasRuntime : Bool} {p : Pool} (h : Pool.start s hasRuntime = .ok p) :
    s.check = .ok () ∧ p = ⟨s.capacity, List.replicate s.workers #[], 0, [], .running, .zero⟩ := by
  unfold start at h
  cases hc : s.check with
  | error e => rw [hc] at h; contradiction
  | ok _ =>
    rw [hc] at h
    cases hasRuntime with
    | false => contradiction
    | true => exact ⟨rfl, (Except.ok.inj h).symm⟩

theorem opened_step (p : Pool) {e : Event} (h : e ≠ .openSession) : (p.step e).2.opened = p.opened := by
  cases e with
  | openSession => contradiction
  | close i => rfl
  | offer i b => simp only [step, offer]; repeat' split
                 all_goals rfl
  | work w outcome => simp only [step, work]; split <;> rfl
  | drain t => simp only [step, drain]; split <;> rfl
  | shutdown => rfl
  | abandon => simp only [step, abandon]; split <;> rfl

theorem opened_run {p : Pool} {es : List Event} (h : ∀ e ∈ es, e ≠ .openSession) : (p.run es).2.opened = p.opened := by
  induction es generalizing p with
  | nil => rfl
  | cons e es ih =>
    rw [run_cons]
    exact (ih fun e' he' => h e' (List.mem_cons_of_mem e he')).trans (opened_step p (h e List.mem_cons_self))

/-! ## One queue of many -/

/-- The queue of a worker, oldest first. -/
def queueAt (p : Pool) (worker : Nat) : List Job := (p.queues.getD worker #[]).toList

/-- What waits for a session, oldest first. -/
def waiting (p : Pool) (i : Nat) : List Job := jobsOf i (p.queueAt (p.shard i))

theorem getD_set {α : Type} (qs : List α) (d x : α) (w v : Nat) :
    (qs.set w x).getD v d = if v = w ∧ w < qs.length then x else qs.getD v d := by
  simp only [List.getD_eq_getElem?_getD, List.getElem?_set]
  by_cases hv : w = v
  · subst hv
    by_cases hw : w < qs.length
    · simp [hw]
    · simp [hw]
  · simp [hv, Ne.symm hv]

theorem getD_modify {α : Type} (qs : List α) (f : α → α) (d : α) (w v : Nat) :
    (qs.modify w f).getD v d = if v = w ∧ w < qs.length then f (qs.getD v d) else qs.getD v d := by
  simp only [List.getD_eq_getElem?_getD, List.getElem?_modify]
  by_cases hv : w = v
  · subst hv
    by_cases hw : w < qs.length
    · simp [hw]
    · simp [hw]
  · simp [hv, Ne.symm hv]

/-- Where only one queue has jobs of a session, that queue has all of them. -/
theorem jobsOf_queues {i : Nat} (qs : List (Array Job)) (w : Nat)
    (h : ∀ v, v ≠ w → jobsOf i (qs.getD v #[]).toList = []) :
    jobsOf i (qs.flatMap Array.toList) = jobsOf i (qs.getD w #[]).toList := by
  induction qs generalizing w with
  | nil => simp
  | cons q qs ih =>
    rw [List.flatMap_cons, jobsOf_append]
    cases w with
    | zero =>
      have hrest : jobsOf i (qs.flatMap Array.toList) = [] := by
        rw [ih qs.length (fun v _ => h (v + 1) (by omega))]
        simp
      rw [hrest, List.append_nil, List.getD_cons_zero]
    | succ w =>
      have hq : jobsOf i q.toList = [] := h 0 (by omega)
      rw [hq, List.nil_append, List.getD_cons_succ]
      exact ih w fun v hv => h (v + 1) (by omega)

/-- The first job of all is the head of some queue, and the others are what is left. -/
theorem exists_head {qs : List (Array Job)} {j : Job} {js : List Job} (h : qs.flatMap Array.toList = j :: js) :
    ∃ w ks, (qs.getD w #[]).toList = j :: ks ∧ (qs.set w ks.toArray).flatMap Array.toList = js := by
  induction qs with
  | nil => simp at h
  | cons q qs ih =>
    rw [List.flatMap_cons] at h
    cases hq : q.toList with
    | nil =>
      rw [hq, List.nil_append] at h
      obtain ⟨w, ks, hw, hs⟩ := ih h
      refine ⟨w + 1, ks, by rw [List.getD_cons_succ]; exact hw, ?_⟩
      rw [List.set_cons_succ, List.flatMap_cons, hq, List.nil_append, hs]
    | cons k ks =>
      rw [hq, List.cons_append] at h
      obtain ⟨rfl, rfl⟩ := List.cons.inj h
      exact ⟨0, ks, by rw [List.getD_cons_zero]; exact hq, by simp⟩

/-! ## A turn of a worker -/

theorem work_cons {p : Pool} (hp : p.phase = .running) {w : Nat} {j : Job} {js : List Job}
    (hw : p.queueAt w = j :: js) (outcome : Option DeliveryError) :
    p.work w outcome = (if p.isOpen j.session then ⟨[j], [], []⟩ else ⟨[], [j], []⟩,
      { p with queues := p.queues.set w js.toArray, counts := p.deliver p.counts j outcome }) := by
  unfold queueAt at hw
  simp only [work, hp, hw]

theorem work_nil {p : Pool} {w : Nat} (hw : p.queueAt w = []) (outcome : Option DeliveryError) :
    p.work w outcome = (⟨[], [], []⟩, p) := by
  unfold queueAt at hw
  simp only [work, hw]
  cases p.phase <;> rfl

theorem work_of_not_running {p : Pool} (hp : p.phase ≠ .running) (w : Nat) (outcome : Option DeliveryError) :
    p.work w outcome = (⟨[], [], []⟩, p) := by
  unfold work
  split
  · contradiction
  · rfl

theorem settle_congr {p q : Pool} (h : q.closed = p.closed) (t : Transport) (n : Nat) (c : DeliveryCounts)
    (js : List Job) : settle q t n c js = settle p t n c js := by
  have hopen : ∀ i, q.isOpen i = p.isOpen i := fun i => by simp [isOpen, h]
  induction js generalizing n c with
  | nil => rfl
  | cons j js ih => simp only [settle, deliver, hopen, ih]

theorem emptied_of_queued_nil {p : Pool} (h : p.queued = []) : p.emptied = p := by
  have hq : p.queues.map (fun _ => (#[] : Array Job)) = p.queues := by
    refine (List.map_congr_left fun q hm => ?_).trans (List.map_id _)
    have : q.toList = [] := List.flatMap_eq_nil_iff.mp h q hm
    simpa using this.symm
  simp [emptied, hq]

theorem turns_from {p : Pool} (hp : p.phase = .running) (t : Transport) (n : Nat) :
    ∃ turns : List (Nat × Option DeliveryError),
      p.run (turns.map fun (w, outcome) => .work w outcome) =
        (⟨[], p.queued.filter fun j => p.isOpen j.session, p.queued.filter fun j => !p.isOpen j.session, []⟩,
          { p.emptied with counts := settle p t n p.counts p.queued }) := by
  -- by the jobs still queued, whose head one more turn takes
  generalize hjs : p.queued = js
  induction js generalizing p n with
  | nil => exact ⟨[], by rw [emptied_of_queued_nil hjs]; rfl⟩
  | cons j js ih =>
    obtain ⟨w, ks, hw, hrest⟩ := exists_head hjs
    let outcome := t n j.batch.callback
    let q : Pool := { p with queues := p.queues.set w ks.toArray, counts := p.deliver p.counts j outcome }
    have hq : p.work w outcome = (if p.isOpen j.session then ⟨[j], [], []⟩ else ⟨[], [j], []⟩, q) :=
      work_cons hp hw outcome
    have hrun : q.phase = .running := hp
    have hqueued : q.queued = js := hrest
    obtain ⟨turns, hturns⟩ := ih hrun (if p.isOpen j.session then n + 1 else n) hqueued
    refine ⟨(w, outcome) :: turns, ?_⟩
    rw [List.map_cons, run_cons]
    simp only [step, hq, hturns]
    have hopen : ∀ i, q.isOpen i = p.isOpen i := fun _ => rfl
    have hempty : ∀ c, { q.emptied with counts := c } = { p.emptied with counts := c } := by
      intro c
      simp [q, emptied, List.map_const']
    have hclosed : q.closed = p.closed := rfl
    have hsettle : ∀ m c, settle q t m c js = settle p t m c js := fun m c => settle_congr hclosed t m c js
    rw [hempty, hsettle]
    simp only [settle, hopen]
    by_cases ho : p.isOpen j.session = true
    · simp [ho, Log.ofRun, Log.append, q, outcome]
    · simp [ho, Log.ofRun, Log.append, q, outcome]

/-- A run of all workers is a run of turns, one worker after the other. -/
theorem drain_eq_turns {p : Pool} (hp : p.phase = .running) (t : Transport) :
    ∃ turns : List (Nat × Option DeliveryError),
      p.run (turns.map fun (w, outcome) => .work w outcome) = p.step (.drain t) := by
  obtain ⟨turns, h⟩ := turns_from hp t 0
  refine ⟨turns, h.trans ?_⟩
  simp only [step, drain, hp, Log.ofRun]

end Pool

end LedgerWatch
