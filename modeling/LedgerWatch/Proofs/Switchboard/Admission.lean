/-
  LedgerWatch.Proofs.Switchboard.Admission — a node's queues are bounded, and what they take on is exact.

  `admission_is_exact`: wherever a run of a node has led, and all the while its next event
  is taken, between the offers of one signal too, no queue is longer than the settings
  allow; a batch is taken on exactly if its session is open, the node has not been shut
  down and the session's queue has room, and is then the last of that queue, with nothing
  else moved; and one that is refused moves nothing. The offers of the event are answered
  just so (`Answered`).
-/

import LedgerWatch.Proofs.Delivery.Admission
import LedgerWatch.Proofs.Switchboard.Shutdown

namespace LedgerWatch.Switchboard

/-! ## The offers of an event are offers to the pool -/

/-- Each offer is answered by the pool as the events before it leave it. -/
def Answered (p : Pool) (pes : List Pool.Event) (offers : List Offer) : Prop :=
  ∀ o ∈ offers, ∃ before, before <+: pes ∧
    o.accepted = ((p.run before).2.offer o.job.session o.job.batch).1

theorem answered_append {p : Pool} {pes pes' : List Pool.Event} {os os' : List Offer} (h : Answered p pes os)
    (h' : Answered (p.run pes).2 pes' os') : Answered p (pes ++ pes') (os ++ os') := by
  intro o ho
  rcases List.mem_append.mp ho with ho | ho
  · obtain ⟨before, hbefore, hanswer⟩ := h o ho
    exact ⟨before, hbefore.trans (List.prefix_append pes pes'), hanswer⟩
  · obtain ⟨before, hbefore, hanswer⟩ := h' o ho
    refine ⟨pes ++ before, (List.prefix_append_right_inj pes).mpr hbefore, ?_⟩
    rw [Pool.run_append]
    exact hanswer

theorem answered_offerAll (id : Nat) (p : Pool) (batches : List Batch) :
    Answered p (batches.map (.offer id)) (offerAll id p batches).1 := by
  induction batches generalizing p with
  | nil => exact fun o ho => nomatch ho
  | cons batch batches ih =>
    have hfirst : Answered p [.offer id batch] [⟨⟨id, batch⟩, (p.offer id batch).1⟩] := by
      intro o ho
      rw [List.mem_singleton.mp ho]
      exact ⟨[], List.nil_prefix, rfl⟩
    have hrest : Answered (p.run [.offer id batch]).2 (batches.map (.offer id))
        (offerAll id (p.offer id batch).2 batches).1 := by
      rw [Pool.run_single]
      exact ih (p.offer id batch).2
    exact answered_append hfirst hrest

theorem answered_tell (b : Switchboard) (sig : Signal) (id : Nat) :
    Answered b.pool (b.poolOffers sig id) (b.tell sig id).1 := by
  unfold poolOffers batchesFor
  cases h : b.sessions.get? id with
  | none =>
    rw [tell_none h]
    exact fun o ho => nomatch ho
  | some s =>
    rw [(tell_some h sig).1]
    exact answered_offerAll id b.pool (s.notices b.ledger sig).batches

theorem answered_tellAll (sig : Signal) (b : Switchboard) (ids : List Nat) :
    Answered b.pool (ids.flatMap (b.poolOffers sig)) (tellAll sig b ids).1 := by
  induction ids generalizing b with
  | nil => exact fun o ho => nomatch ho
  | cons id ids ih =>
    have hpool : (b.pool.run (b.poolOffers sig id)).2 = (b.tell sig id).2.pool := by rw [pool_tell]
    rw [List.flatMap_cons, tellAll_cons]
    refine answered_append (answered_tell b sig id) ?_
    rw [hpool, ← poolOffers_tell b sig id]
    exact ih (b.tell sig id).2

theorem answered_step {b : Switchboard} {e : Event} {offers : List Offer} (h : (b.step e).1 = .offered offers) :
    Answered b.pool (b.poolEvents e) offers := by
  cases e with
  | signal sig =>
    obtain rfl := Out.offered.inj h
    exact answered_tellAll sig b.prune b.present
  | signalTo id sig =>
    simp only [step] at h
    split at h
    · contradiction
    · obtain rfl := Out.offered.inj h
      exact answered_tell b sig id
  | drop id =>
    simp only [step] at h
    split at h <;> contradiction
  | request id r | close id =>
    simp only [step] at h
    split at h <;> contradiction
  | openSession | insert r | erase id | apply ops | work w outcome | drain t | shutdown => contradiction

/-! ## The node -/

section Start

variable {settings : Settings} {hasRuntime : Bool} {b : Switchboard}
  (h : Switchboard.start settings hasRuntime = .ok b) (es : List Event)
include h

theorem fits_passes {later : List Event} {p : Pool} (hp : Passes (b.run es).2 later p) :
    Pool.Fits settings.delivery p := by
  have hstart : Pool.Fits settings.delivery b.pool := by
    obtain ⟨p, hpool, rfl⟩ := start_ok h
    exact Pool.fits_start hpool
  have hrun : Pool.Fits settings.delivery (b.run es).2.pool := by
    have hall := Pool.fits_run hstart (b.poolRun es)
    rwa [run_poolRun] at hall
  obtain ⟨pes, -, rfl⟩ := hp
  exact Pool.fits_run hrun pes

/-- The workers have stopped exactly if there was a shutdown. -/
theorem stopped_iff {e : Event} (he : e ≠ .shutdown) {p : Pool} (hp : Passes (b.run es).2 [e] p) :
    p.phase = .stopped ↔ Event.shutdown ∈ es := by
  constructor
  · intro hstopped
    apply Classical.byContradiction
    intro hes
    have hone : Event.shutdown ∉ [e] := by simpa using Ne.symm he
    have hrunning := running_passes (running_until h hes) hone hp
    rw [hstopped] at hrunning
    contradiction
  · intro hes
    exact (stopped_passes (stopped_since hes b) [e] hp).phase

end Start

/-- In every state a node can be in, no queue is longer than its settings allow, and offers are answered as
`Pool.Admission` has it; and so are those it makes itself. -/
theorem admission_is_exact {settings : Settings} {hasRuntime : Bool} {b : Switchboard}
    (h : Switchboard.start settings hasRuntime = .ok b) (es : List Event) (e : Event) :
    let c := (b.run es).2
    (∀ p, Passes c [e] p →
      Pool.Fits settings.delivery p ∧ (∀ i batch, Pool.Admission p i batch) ∧
        (e ≠ .shutdown → (p.phase = .stopped ↔ Event.shutdown ∈ es))) ∧
      ∀ offers, (c.step e).1 = .offered offers → ∀ o ∈ offers,
        ∃ p, Passes c [e] p ∧ o.accepted = (p.offer o.job.session o.job.batch).1 := by
  intro c
  refine ⟨?_, ?_⟩
  · intro p hp
    have hfits := fits_passes h es hp
    exact ⟨hfits, Pool.admission hfits.manned, fun he => stopped_iff h es he hp⟩
  · intro offers hoffers o ho
    obtain ⟨before, hbefore, hanswer⟩ := answered_step hoffers o ho
    have hevents : c.poolRun [e] = c.poolEvents e := List.append_nil _
    exact ⟨(c.pool.run before).2, ⟨before, hevents ▸ hbefore, rfl⟩, hanswer⟩

/-- A session's one place is taken, the session is closed, and its neighbour finds no room. -/
def leftBehind : List Event :=
  [.openSession, .openSession, .request 1 (.subscribePending (some ⟨"a", none⟩)),
    .request 2 (.subscribePending (some ⟨"b", none⟩)), .signalTo 1 (.pendingTransaction ⟨0, 0, 0, [], []⟩), .close 1]

theorem admission_is_exact_of_left_behind :
    ∃ b, Switchboard.start narrow true = .ok b ∧
      let c := (b.run leftBehind).2
      let told := c.signal (.pendingTransaction ⟨1, 0, 0, [], []⟩)
      Pool.Fits narrow.delivery c.pool ∧ (c.pool.queueAt 0).length = 1 ∧
        (c.pool.phase = .stopped ↔ Event.shutdown ∈ leftBehind) ∧ (∀ batch, Pool.Admission c.pool 2 batch) ∧
        told.1.map (·.accepted) = [false] ∧
        ∀ o ∈ told.1, ∃ p, Passes c [.signal (.pendingTransaction ⟨1, 0, 0, [], []⟩)] p ∧
          o.accepted = (p.offer o.job.session o.job.batch).1 := by
  refine ⟨_, rfl, ?_⟩
  obtain ⟨hstates, hoffers⟩ :=
    @admission_is_exact narrow true _ rfl leftBehind (.signal (.pendingTransaction ⟨1, 0, 0, [], []⟩))
  obtain ⟨hfits, hadmission, hphase⟩ := hstates _ ⟨[], List.nil_prefix, rfl⟩
  exact ⟨hfits, by decide +kernel, hphase (by simp), hadmission 2, by decide +kernel, hoffers _ rfl⟩

end LedgerWatch.Switchboard
