/-
  LedgerWatch.Proofs.Delivery.Counts — the counters of a pool tell what its log has.

  `counted_run`: over any run, for each stream, the batches counted as scheduled are the
  jobs taken on, those counted as delivered or failed are the jobs called, and those
  counted as dropped for a closed session are the jobs skipped.
-/

import LedgerWatch.Proofs.Delivery.Runs

namespace LedgerWatch

/-- How many jobs are for a stream. -/
def onStream (s : Stream) (jobs : List Job) : Nat := jobs.countP fun j => j.batch.stream = s

@[simp] theorem onStream_nil (s : Stream) : onStream s [] = 0 := rfl

@[simp] theorem onStream_append (s : Stream) (js ks : List Job) :
    onStream s (js ++ ks) = onStream s js + onStream s ks :=
  List.countP_append

theorem onStream_single (s : Stream) (j : Job) : onStream s [j] = if j.batch.stream = s then 1 else 0 := by
  simp [onStream, List.countP_singleton]

namespace Pool

/-- From the counts `c` to the counts `d` goes what the log has. -/
structure Counted (c d : DeliveryCounts) (l : Log) : Prop where
  scheduled : ∀ s, d.scheduled.get s = c.scheduled.get s + onStream s l.accepted
  called : ∀ s, d.delivered.get s + d.failures.get s = c.delivered.get s + c.failures.get s + onStream s l.called
  skipped : ∀ s, d.sessionClosed.get s = c.sessionClosed.get s + onStream s l.skipped

theorem counted_nothing (c : DeliveryCounts) {l : Log} (ha : l.accepted = []) (hc : l.called = [])
    (hs : l.skipped = []) : Counted c c l :=
  ⟨fun s => by simp [ha], fun s => by simp [hc], fun s => by simp [hs]⟩

theorem Counted.append {c d e : DeliveryCounts} {l m : Log} (h : Counted c d l) (h' : Counted d e m) :
    Counted c e (l.append m) := by
  refine ⟨fun s => ?_, fun s => ?_, fun s => ?_⟩
  · rw [h'.scheduled, h.scheduled, Log.append, onStream_append, Nat.add_assoc]
  · rw [h'.called, h.called, Log.append, onStream_append, Nat.add_assoc]
  · rw [h'.skipped, h.skipped, Log.append, onStream_append, Nat.add_assoc]

/-- A job taken from its queue is counted once, by what became of it. -/
theorem counted_deliver (p : Pool) (c : DeliveryCounts) (j : Job) (outcome : Option DeliveryError) :
    Counted c (p.deliver c j outcome)
      (.ofRun (if p.isOpen j.session then ⟨[j], [], []⟩ else ⟨[], [j], []⟩)) := by
  unfold deliver
  by_cases h : p.isOpen j.session = true
  · rw [if_pos h, if_pos h]
    refine ⟨fun s => ?_, fun s => ?_, fun s => ?_⟩
    · cases outcome <;> rfl
    · cases outcome with
      | none => simp only [DeliveryCounts.succeed, Log.ofRun, PerStream.get_bump, onStream_single]; omega
      | some e => simp only [DeliveryCounts.fail, Log.ofRun, PerStream.get_bump, onStream_single]; omega
    · cases outcome <;> rfl
  · rw [if_neg h, if_neg h]
    refine ⟨fun s => rfl, fun s => rfl, fun s => ?_⟩
    simp only [DeliveryCounts.drop, Log.ofRun, PerStream.get_bump, onStream_single]

theorem counted_offer (p : Pool) (i : Nat) (b : Batch) :
    Counted p.counts (p.step (.offer i b)).2.counts (p.step (.offer i b)).1 := by
  simp only [step, offer]
  by_cases hopen : p.isOpen i = true
  case neg => simpa [hopen] using counted_nothing p.counts rfl rfl rfl
  by_cases hstop : p.phase = .stopped
  · refine ⟨fun s => ?_, fun s => ?_, fun s => ?_⟩ <;> simp [hopen, hstop, DeliveryCounts.drop]
  by_cases hfull : p.capacity ≤ (p.queueOf i).size
  · refine ⟨fun s => ?_, fun s => ?_, fun s => ?_⟩ <;> simp [hopen, hstop, hfull, DeliveryCounts.drop]
  · refine ⟨fun s => ?_, fun s => ?_, fun s => ?_⟩ <;>
      simp [hopen, hstop, hfull, DeliveryCounts.schedule, onStream_single]

theorem counted_work (p : Pool) (w : Nat) (outcome : Option DeliveryError) :
    Counted p.counts (p.step (.work w outcome)).2.counts (p.step (.work w outcome)).1 := by
  simp only [step]
  by_cases hrun : p.phase = .running
  · cases hw : p.queueAt w with
    | nil => rw [work_nil hw]; exact counted_nothing p.counts rfl rfl rfl
    | cons j js => rw [work_cons hrun hw]; exact counted_deliver p p.counts j outcome
  · rw [work_of_not_running hrun]
    exact counted_nothing p.counts rfl rfl rfl

theorem counted_turns (p : Pool) (turns : List (Nat × Option DeliveryError)) :
    Counted p.counts (p.run (turns.map fun (w, outcome) => .work w outcome)).2.counts
      (p.run (turns.map fun (w, outcome) => .work w outcome)).1 := by
  induction turns generalizing p with
  | nil => exact counted_nothing p.counts rfl rfl rfl
  | cons t turns ih =>
    rw [List.map_cons, run_cons]
    exact (counted_work p t.1 t.2).append (ih _)

theorem counted_drain (p : Pool) (t : Transport) :
    Counted p.counts (p.step (.drain t)).2.counts (p.step (.drain t)).1 := by
  cases hp : p.phase with
  | running =>
    obtain ⟨turns, ht⟩ := drain_eq_turns hp t
    rw [← ht]
    exact counted_turns p turns
  | abandoned | stopped =>
    simp only [step, drain, hp]
    exact counted_nothing p.counts rfl rfl rfl

theorem counted_step (p : Pool) (e : Event) : Counted p.counts (p.step e).2.counts (p.step e).1 := by
  cases e with
  | offer i b => exact counted_offer p i b
  | work w outcome => exact counted_work p w outcome
  | drain t => exact counted_drain p t
  | openSession | close i | shutdown => exact counted_nothing p.counts rfl rfl rfl
  | abandon =>
    simp only [step, abandon]
    split <;> exact counted_nothing p.counts rfl rfl rfl

theorem counted_run (p : Pool) (es : List Event) : Counted p.counts (p.run es).2.counts (p.run es).1 := by
  induction es generalizing p with
  | nil => exact counted_nothing p.counts rfl rfl rfl
  | cons e es ih =>
    rw [run_cons]
    exact (counted_step p e).append (ih _)

end Pool

end LedgerWatch
