/-
  LedgerWatch.Proofs.Delivery.Admission — what a pool takes on, and how much it holds.

  A batch is taken on exactly if its session is open, the workers have not stopped and
  the session's queue has room (`Admits`). It then stands at the tail of that queue, and
  the rest of the pool is as it was but for one count; a batch that is refused changes
  the counts at most (`Admission`).

  Only an offer makes a queue longer, and it does so below the capacity, so that no queue
  is ever longer than the settings allow (`fits_run`), whoever its jobs belong to.
-/

import LedgerWatch.Proofs.Delivery.Order

namespace LedgerWatch.Pool

/-- Session `i` may offer a batch and have it taken on. -/
structure Admits (p : Pool) (i : Nat) : Prop where
  isOpen : p.isOpen i = true
  working : p.phase ≠ .stopped
  room : (p.queueAt (p.shard i)).length < p.capacity

theorem offer_of_admits {p : Pool} {i : Nat} (h : Admits p i) (b : Batch) :
    p.offer i b = (true, { p with
      queues := p.queues.modify (p.shard i) (·.push ⟨i, b⟩)
      counts := p.counts.schedule b.stream }) := by
  have hroom : ¬ p.capacity ≤ (p.queueOf i).size := Nat.not_le.mpr h.room
  unfold offer
  simp [h.isOpen, h.working, hroom]

theorem offer_of_not_admits {p : Pool} {i : Nat} (h : ¬ Admits p i) (b : Batch) :
    ∃ counts, p.offer i b = (false, { p with counts := counts }) := by
  unfold offer
  by_cases hopen : p.isOpen i = true
  case neg => exact ⟨p.counts, by simp [hopen]⟩
  by_cases hstop : p.phase = .stopped
  · exact ⟨_, by simp [hopen, hstop]; rfl⟩
  by_cases hfull : p.capacity ≤ (p.queueOf i).size
  · exact ⟨_, by simp [hopen, hstop, hfull]; rfl⟩
  · exact absurd ⟨hopen, hstop, Nat.not_le.mp hfull⟩ h

/-- How session `i` is answered when it offers the batch `b`. -/
structure Admission (p : Pool) (i : Nat) (b : Batch) : Prop where
  answer : (p.offer i b).1 = true ↔ Admits p i
  taken : Admits p i → ∃ queues, (p.offer i b).2 = { p with queues := queues, counts := p.counts.schedule b.stream } ∧
    queues.length = p.workers ∧
    ∀ w, (queues.getD w #[]).toList = if w = p.shard i then p.queueAt w ++ [⟨i, b⟩] else p.queueAt w
  refused : ¬ Admits p i → ∃ counts, (p.offer i b).2 = { p with counts := counts }

theorem admission {p : Pool} (hm : 0 < p.workers) (i : Nat) (b : Batch) : Admission p i b := by
  refine ⟨⟨?_, ?_⟩, ?_, ?_⟩
  · intro htaken
    apply Classical.byContradiction
    intro hnot
    obtain ⟨counts, hoffer⟩ := offer_of_not_admits hnot b
    rw [hoffer] at htaken
    contradiction
  · intro h
    rw [offer_of_admits h]
  · intro h
    refine ⟨_, by rw [offer_of_admits h], List.length_modify _ _ _, ?_⟩
    intro w
    rw [getD_modify]
    by_cases hw : w = p.shard i
    · rw [if_pos ⟨hw, hw ▸ shard_lt hm i⟩, if_pos hw, Array.toList_push]
      rfl
    · rw [if_neg fun hand => hw hand.1, if_neg hw]
      rfl
  · intro h
    obtain ⟨counts, hoffer⟩ := offer_of_not_admits h b
    exact ⟨counts, by rw [hoffer]⟩

/-! ## How much is held -/

/-- The pool is as large as its settings say, and no queue is longer than they allow. -/
structure Fits (s : DeliverySettings) (p : Pool) : Prop where
  manned : 0 < p.workers
  workers : p.workers = s.workers
  capacity : p.capacity = s.capacity
  bounded : ∀ w, (p.queueAt w).length ≤ s.capacity

variable {s : DeliverySettings} {p : Pool}

/-- To take jobs away keeps the bound. -/
theorem fits_of_shorter {q : Pool} (h : Fits s p) (hworkers : q.workers = p.workers)
    (hcapacity : q.capacity = p.capacity) (hshorter : ∀ w, (q.queueAt w).length ≤ (p.queueAt w).length) : Fits s q := by
  refine ⟨?_, hworkers.trans h.workers, hcapacity.trans h.capacity, ?_⟩
  · rw [hworkers]
    exact h.manned
  · intro w
    exact Nat.le_trans (hshorter w) (h.bounded w)

theorem fits_offer (h : Fits s p) (i : Nat) (b : Batch) : Fits s (p.offer i b).2 := by
  have ha := admission h.manned i b
  by_cases hadmits : Admits p i
  · obtain ⟨queues, hoffer, hlength, hqueues⟩ := ha.taken hadmits
    rw [hoffer]
    refine ⟨?_, hlength.trans h.workers, h.capacity, ?_⟩
    · show 0 < queues.length
      rw [hlength]
      exact h.manned
    · intro w
      show (queues.getD w #[]).toList.length ≤ s.capacity
      rw [hqueues]
      split
      · rename_i hw
        have hroom := hadmits.room
        rw [← hw, h.capacity] at hroom
        rw [List.length_append, List.length_singleton]
        omega
      · exact h.bounded w
  · obtain ⟨counts, hoffer⟩ := ha.refused hadmits
    rw [hoffer]
    exact fits_of_shorter h rfl rfl fun w => Nat.le_refl _

theorem fits_work (h : Fits s p) (w : Nat) (outcome : Option DeliveryError) : Fits s (p.work w outcome).2 := by
  unfold work
  split
  · rename_i j js _ hw
    refine fits_of_shorter h (List.length_set ..) rfl ?_
    intro v
    show ((p.queues.set w js.toArray).getD v #[]).toList.length ≤ (p.queues.getD v #[]).toList.length
    rw [getD_set]
    split
    · rename_i hv
      rw [hv.1, hw]
      exact Nat.le_succ _
    · exact Nat.le_refl _
  · exact h

theorem fits_emptied (h : Fits s p) (phase : Phase) (counts : DeliveryCounts) :
    Fits s { p.emptied with phase := phase, counts := counts } := by
  refine fits_of_shorter h (List.length_map _) rfl ?_
  intro w
  have hempty : queueAt { p.emptied with phase := phase, counts := counts } w = [] := queueAt_emptied p w
  rw [hempty]
  exact Nat.zero_le _

theorem fits_step (h : Fits s p) (e : Event) : Fits s (p.step e).2 := by
  cases e with
  | openSession | close i => exact ⟨h.manned, h.workers, h.capacity, h.bounded⟩
  | offer i b => exact fits_offer h i b
  | work w outcome => exact fits_work h w outcome
  | drain t =>
    simp only [step, drain]
    cases hp : p.phase with
    | running => exact fits_emptied h p.phase _
    | abandoned => exact fits_emptied h .stopped p.counts
    | stopped => exact h
  | shutdown => exact fits_emptied h .stopped p.counts
  | abandon =>
    simp only [step, abandon]
    split
    · exact ⟨h.manned, h.workers, h.capacity, h.bounded⟩
    · exact h

theorem fits_run (h : Fits s p) (es : List Event) : Fits s (p.run es).2 := by
  induction es generalizing p with
  | nil => exact h
  | cons e es ih =>
    have hstep := fits_step h e
    exact ih hstep

theorem fits_start {hasRuntime : Bool} (h : Pool.start s hasRuntime = .ok p) : Fits s p := by
  have hempty := queueAt_start h
  obtain ⟨hcheck, rfl⟩ := start_ok h
  have hworkers : workers ⟨s.capacity, List.replicate s.workers #[], 0, [], .running, .zero⟩ = s.workers :=
    List.length_replicate
  refine ⟨?_, hworkers, rfl, ?_⟩
  · rw [hworkers]
    exact workers_of_check hcheck
  · intro w
    rw [hempty]
    exact Nat.zero_le _

end LedgerWatch.Pool
