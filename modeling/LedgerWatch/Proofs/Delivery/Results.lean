/-
  LedgerWatch.Proofs.Delivery.Results — what callbacks report changes two counts.

  A call is counted as succeeded or as failed, and that is all that becomes of its result.
  To show it, every call is counted as succeeded (`Pool.unheard`): each thing a pool can do
  then comes out the same whatever the callbacks report, in what it answers and in the
  pool it leaves.
-/

import LedgerWatch.Proofs.Delivery.Runs

namespace LedgerWatch

namespace PerStream

def plus (a b : PerStream) : PerStream :=
  ⟨a.updates + b.updates, a.market + b.market, a.pendingTransactions + b.pendingTransactions,
    a.blockApplied + b.blockApplied⟩

@[simp] theorem get_plus (a b : PerStream) (s : Stream) : (a.plus b).get s = a.get s + b.get s := by cases s <;> rfl

theorem bump_plus (a b : PerStream) (s : Stream) : (a.bump s).plus b = (a.plus b).bump s := by
  cases s <;> simp [bump, plus] <;> omega

theorem plus_bump (a b : PerStream) (s : Stream) : a.plus (b.bump s) = (a.plus b).bump s := by
  cases s <;> simp [bump, plus] <;> omega

end PerStream

namespace DeliveryCounts

/-- With a call that failed counted as one that succeeded. -/
def unheard (c : DeliveryCounts) : DeliveryCounts :=
  { c with delivered := c.delivered.plus c.failures, failures := .zero }

theorem unheard_succeed (c : DeliveryCounts) (s : Stream) : (c.succeed s).unheard = c.unheard.succeed s := by
  simp [succeed, unheard, PerStream.bump_plus]

theorem unheard_fail (c : DeliveryCounts) (s : Stream) : (c.fail s).unheard = c.unheard.succeed s := by
  simp [fail, succeed, unheard, PerStream.plus_bump]

theorem unheard_drop (c : DeliveryCounts) (s : Stream) (reason : DropReason) :
    (c.drop s reason).unheard = c.unheard.drop s reason := by
  cases reason <;> rfl

end DeliveryCounts

/-- No call is heard of. -/
def Transport.silent : Transport := fun _ _ => none

namespace Pool

def unheard (p : Pool) : Pool := { p with counts := p.counts.unheard }

@[simp] theorem isOpen_unheard (p : Pool) (i : Nat) : p.unheard.isOpen i = p.isOpen i := rfl

theorem offer_unheard (p : Pool) (i : Nat) (b : Batch) :
    p.unheard.offer i b = ((p.offer i b).1, (p.offer i b).2.unheard) := by
  have hqueue : p.unheard.queueOf i = p.queueOf i := rfl
  unfold offer
  rw [isOpen_unheard, hqueue]
  by_cases hopen : p.isOpen i = true
  case neg => simp [hopen]
  by_cases hstop : p.phase = .stopped
  · simp [hopen, hstop, unheard, DeliveryCounts.unheard_drop]
  by_cases hfull : p.capacity ≤ (p.queueOf i).size
  · simp [hopen, hstop, hfull, unheard, DeliveryCounts.unheard_drop]
  · simp only [hopen, unheard, hstop, hfull]
    rfl

theorem deliver_unheard (p : Pool) (c : DeliveryCounts) (j : Job) (outcome : Option DeliveryError) :
    p.unheard.deliver c.unheard j none = (p.deliver c j outcome).unheard := by
  unfold deliver
  rw [isOpen_unheard]
  split
  · cases outcome with
    | none => exact (c.unheard_succeed j.batch.stream).symm
    | some e => exact (c.unheard_fail j.batch.stream).symm
  · exact (c.unheard_drop j.batch.stream .sessionClosed).symm

theorem settle_unheard (p : Pool) (t : Transport) (n : Nat) (c : DeliveryCounts) (js : List Job) :
    settle p.unheard .silent n c.unheard js = (settle p t n c js).unheard := by
  induction js generalizing n c with
  | nil => rfl
  | cons j js ih =>
    rw [settle, settle, ← ih]
    rw [show Transport.silent n j.batch.callback = none from rfl, deliver_unheard p c j (t n j.batch.callback)]
    rfl

theorem work_unheard (p : Pool) (w : Nat) (outcome : Option DeliveryError) :
    p.unheard.work w none = ((p.work w outcome).1, (p.work w outcome).2.unheard) := by
  by_cases hrun : p.phase = .running
  · cases hw : p.queueAt w with
    | nil =>
      have hw' : p.unheard.queueAt w = [] := hw
      rw [work_nil hw, work_nil hw']
    | cons j js =>
      have hrun' : p.unheard.phase = .running := hrun
      have hw' : p.unheard.queueAt w = j :: js := hw
      rw [work_cons hrun hw, work_cons hrun' hw', show p.unheard.counts = p.counts.unheard from rfl,
        deliver_unheard p p.counts j outcome]
      rfl
  · have hrun' : p.unheard.phase ≠ .running := hrun
    rw [work_of_not_running hrun, work_of_not_running hrun']

theorem drain_unheard (p : Pool) (t : Transport) :
    p.unheard.drain .silent = ((p.drain t).1, (p.drain t).2.unheard) := by
  have hphase : p.unheard.phase = p.phase := rfl
  unfold drain
  rw [hphase]
  cases p.phase with
  | running =>
    show (_, { p.unheard.emptied with counts := settle p.unheard .silent 0 p.counts.unheard p.queued }) = _
    rw [settle_unheard p t]
    rfl
  | abandoned | stopped => rfl

end Pool

end LedgerWatch
