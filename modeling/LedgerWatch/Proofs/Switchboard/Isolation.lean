/-
  LedgerWatch.Proofs.Switchboard.Isolation — no session is touched by what the others ask.

  Take two runs in which the same happens to one session: it makes the same requests
  between the same openings, changes of the ledger and signals. What other connections
  ask, close or drop may differ in any way, and so may the turns of the workers. Then the
  session is the same in both, has the same answers and hands the same batches over, at
  every step and in the same order (`sessions_are_isolated`). Whether a batch is taken on
  is another matter: sessions share the queue of their worker.

  One step keeps two nodes the same for a session (`sameFor_step`), or it does not concern
  the session and passes without a trace (`sameFor_others`). So a run leaves the session
  where the events that concern it alone would have (`seen_run`).
-/

import LedgerWatch.Proofs.Delivery.Silence
import LedgerWatch.Proofs.Switchboard.Sessions

namespace LedgerWatch.Switchboard

/-! ## What one session sees -/

/-- What does not concern a session is what others ask of their own sessions, and the turns of the workers. -/
def concerns (i : Nat) : Event → Bool
  | .request k _ | .close k | .drop k | .signalTo k _ => k = i
  | .work _ _ | .drain _ => false
  | .openSession | .insert _ | .erase _ | .apply _ | .signal _ | .shutdown => true

/-- The answer to a request, if it is one of the session's. -/
def answerTo (i : Nat) : Event → Out → Option Out
  | .request k _, o | .close k, o | .drop k, o => if k = i then some o else none
  | .openSession, _ | .insert _, _ | .erase _, _ | .apply _, _ | .signal _, _ | .signalTo _ _, _ | .work _ _, _
  | .drain _, _ | .shutdown, _ => none

def answersTo (i : Nat) (es : List Event) (os : List Out) : List Out := (es.zip os).filterMap fun x => answerTo i x.1 x.2

/-- The batches a session hands over for delivery, taken on or not. -/
def handed (i : Nat) (o : Out) : List Batch := (jobsOf i (offersOf o)).map (·.batch)

/-- Nodes that are the same as far as one session can see. -/
structure SameFor (i : Nat) (b c : Switchboard) : Prop where
  settings : b.settings = c.settings
  ledger : b.ledger = c.ledger
  opened : b.pool.opened = c.pool.opened
  session : b.sessions.get? i = c.sessions.get? i
  isOpen : b.pool.isOpen i = c.pool.isOpen i

theorem SameFor.refl (i : Nat) (b : Switchboard) : SameFor i b b := ⟨rfl, rfl, rfl, rfl, rfl⟩

theorem SameFor.symm {i : Nat} {b c : Switchboard} (h : SameFor i b c) : SameFor i c b :=
  ⟨h.settings.symm, h.ledger.symm, h.opened.symm, h.session.symm, h.isOpen.symm⟩

theorem SameFor.trans {i : Nat} {b c d : Switchboard} (h : SameFor i b c) (h' : SameFor i c d) : SameFor i b d :=
  ⟨h.settings.trans h'.settings, h.ledger.trans h'.ledger, h.opened.trans h'.opened, h.session.trans h'.session,
    h.isOpen.trans h'.isOpen⟩

/-! ## What a step does, part by part -/

/-- Whether an event closes a session, if it is held. -/
def closes (i : Nat) : Event → Bool
  | .close k | .drop k => k = i
  | .shutdown => true
  | .openSession | .request _ _ | .insert _ | .erase _ | .apply _ | .signal _ | .signalTo _ _ | .work _ _ | .drain _ => false

theorem closes_poolEvents {b : Switchboard} (hb : Enrolled b) (i : Nat) (e : Event) :
    (b.poolEvents e).any (Pool.Event.closes i) = (b.sessions.contains i && closes i e) := by
  cases e with
  | drop k | close k =>
    simp only [poolEvents, closes]
    by_cases hk : k = i
    · subst hk
      cases b.sessions.contains k <;> simp [Pool.Event.closes]
    · simp only [hk, decide_false, Bool.and_false]
      split
      · simp [Pool.Event.closes, hk]
      · rfl
  | shutdown =>
    have hpresent : b.present.any (Pool.Event.closes i ∘ .close) = b.sessions.contains i := by
      rw [Bool.eq_iff_iff, ← mem_present_iff hb, List.any_eq_true]
      simp [Pool.Event.closes]
    simp only [poolEvents, closes, List.any_append, List.any_map, hpresent, Bool.and_true]
    exact Bool.or_false _
  | signal sig => simp [poolEvents, poolOffers, closes, Pool.Event.closes]
  | signalTo k sig => simp [poolEvents, poolOffers, closes, Pool.Event.closes]
  | openSession | request k r | insert r | erase id | apply ops | work w outcome | drain t => exact (Bool.and_false _).symm

theorem isOpen_step {b : Switchboard} (hb : Enrolled b) (i : Nat) (e : Event) :
    (b.step e).2.pool.isOpen i = (b.pool.isOpen i && !(b.sessions.contains i && closes i e)) := by
  rw [← closes_poolEvents hb, ← Pool.isOpen_run, pool_step]

/-- What an event makes a session hand over. -/
def toHand (b : Switchboard) (i : Nat) : Event → List Batch
  | .signal sig => b.batchesFor sig i
  | .signalTo k sig => if k = i then b.batchesFor sig i else []
  | .openSession | .drop _ | .request _ _ | .close _ | .insert _ | .erase _ | .apply _ | .work _ _ | .drain _
  | .shutdown => []

theorem batches_of_jobs (i : Nat) (batches : List Batch) :
    (batches.map fun batch => (⟨i, batch⟩ : Job)).map (·.batch) = batches := by
  rw [List.map_map]
  exact List.map_id batches

theorem handed_step {b : Switchboard} (hb : Enrolled b) (i : Nat) (e : Event) : handed i (b.step e).1 = b.toHand i e := by
  cases e with
  | signal sig =>
    show (jobsOf i ((b.signal sig).1.map (·.job))).map (·.batch) = b.batchesFor sig i
    rw [jobs_signal]
    by_cases hi : i ∈ b.present
    · have hdistinct : b.present.Nodup := hb.distinct.filter _
      rw [jobsOf_flatMap hdistinct hi, batches_of_jobs]
    · rw [jobsOf_others hi, batchesFor, get?_of_not_present hb hi]
      rfl
  | signalTo k sig =>
    have hjobs : handed i (b.step (.signalTo k sig)).1 = (jobsOf i ((b.tell sig k).1.map (·.job))).map (·.batch) := by
      simp only [step]
      split
      · rename_i hnone
        rw [tell_none hnone]
        rfl
      · rfl
    rw [hjobs, jobs_tell, toHand]
    by_cases hk : k = i
    · subst hk
      rw [jobsOf_own, batches_of_jobs, if_pos rfl]
    · rw [jobsOf_other hk, if_neg hk]
      rfl
  | drop k => simp only [step]; split <;> rfl
  | request k r => simp only [step]; split <;> rfl
  | close k => simp only [step]; split <;> rfl
  | openSession | insert r | erase id | apply ops | work w outcome | drain t | shutdown => rfl

/-! ## One step of two nodes -/

section Step

variable {i : Nat} {b c : Switchboard} (h : SameFor i b c) (e : Event)

include h

theorem batchesFor_congr (sig : Signal) : b.batchesFor sig i = c.batchesFor sig i := by
  unfold batchesFor
  rw [h.session, h.ledger]

theorem contains_congr : b.sessions.contains i = c.sessions.contains i := by
  rw [SortedMap.contains, SortedMap.contains, h.session]

theorem answerTo_congr : answerTo i e (b.step e).1 = answerTo i e (c.step e).1 := by
  cases e with
  | request k r =>
    simp only [answerTo]
    split
    · rename_i hk
      subst hk
      simp only [step, h.session]
      cases c.sessions.get? k with
      | none => rfl
      | some s =>
        show some (Out.replied (s.serve b.ledger r).1) = some (.replied (s.serve c.ledger r).1)
        rw [h.ledger]
    · rfl
  | close k =>
    simp only [answerTo]
    split
    · rename_i hk
      subst hk
      simp only [step, h.session]
      cases c.sessions.get? k <;> rfl
    · rfl
  | drop k =>
    simp only [answerTo]
    split
    · rename_i hk
      subst hk
      simp only [step, contains_congr h]
      cases c.sessions.contains k <;> rfl
    · rfl
  | openSession | insert | erase | apply | signal | signalTo | work | drain | shutdown => rfl

variable (hb : Enrolled b) (hc : Enrolled c)

include hb hc

theorem sessionAfter_congr : b.sessionAfter i e = c.sessionAfter i e := by
  cases e with
  | openSession => simp only [sessionAfter, h.session, h.opened, h.settings]
  | request k r => simp only [sessionAfter, h.session, h.ledger]
  | shutdown => rw [sessionAfter_shutdown hb, sessionAfter_shutdown hc, h.session]
  | drop | close | insert | erase | apply | signal | signalTo | work | drain => simp only [sessionAfter, h.session]

/-- Whatever happens, nodes that are the same for a session stay the same. -/
theorem sameFor_step : SameFor i (b.step e).2 (c.step e).2 := by
  obtain ⟨hbs, hbl⟩ := world_step b e
  obtain ⟨hcs, hcl⟩ := world_step c e
  refine ⟨?_, ?_, ?_, ?_, ?_⟩
  · rw [hbs, hcs, h.settings]
  · rw [hbl, hcl, h.ledger]
  · by_cases hopen : e = .openSession
    · subst hopen
      exact congrArg (· + 1) h.opened
    · rw [opened_step b hopen, opened_step c hopen, h.opened]
  · rw [get?_step, get?_step, sessionAfter_congr h e hb hc]
  · rw [isOpen_step hb, isOpen_step hc, h.isOpen, contains_congr h]

theorem handed_congr : handed i (b.step e).1 = handed i (c.step e).1 := by
  rw [handed_step hb, handed_step hc]
  cases e with
  | signal sig => exact batchesFor_congr h sig
  | signalTo k sig => simp only [toHand, batchesFor_congr h]
  | openSession | drop | request | close | insert | erase | apply | work | drain | shutdown => rfl

end Step

/-- What does not concern a session leaves no trace with it. -/
theorem sameFor_others {i : Nat} {b : Switchboard} (hb : Enrolled b) {e : Event} (he : concerns i e = false) :
    SameFor i (b.step e).2 b ∧ answerTo i e (b.step e).1 = none ∧ handed i (b.step e).1 = [] := by
  have hopen : e ≠ .openSession := by
    rintro rfl
    contradiction
  have hledger : ledgerAfter b.ledger e = b.ledger := by
    cases e with
    | insert | erase | apply => contradiction
    | openSession | drop | request | close | signal | signalTo | work | drain | shutdown => rfl
  have hsession : b.sessionAfter i e = b.sessions.get? i := by
    cases e with
    | drop k | request k r | close k => exact if_neg (of_decide_eq_false he)
    | openSession | shutdown => contradiction
    | insert | erase | apply | signal | signalTo | work | drain => rfl
  have hcloses : closes i e = false := by
    cases e with
    | drop k | close k => exact he
    | shutdown => contradiction
    | openSession | request | insert | erase | apply | signal | signalTo | work | drain => rfl
  obtain ⟨hsettings, hl⟩ := world_step b e
  refine ⟨⟨hsettings, hl.trans hledger, opened_step b hopen, ?_, ?_⟩, ?_, ?_⟩
  · rw [get?_step, hsession]
  · rw [isOpen_step hb, hcloses, Bool.and_false]
    exact Bool.and_true _
  · cases e with
    | drop k | request k r | close k => exact if_neg (of_decide_eq_false he)
    | openSession | insert | erase | apply | signal | signalTo | work | drain | shutdown => rfl
  · rw [handed_step hb]
    cases e with
    | signal => contradiction
    | signalTo k sig => exact if_neg (of_decide_eq_false he)
    | openSession | drop | request | close | insert | erase | apply | work | drain | shutdown => rfl

/-! ## Whole runs -/

/-- Two runs look the same to one session: in what becomes of it, in its answers and in what it hands over. -/
structure LooksSame (i : Nat) (b : Switchboard) (es : List Event) (c : Switchboard) (fs : List Event) : Prop where
  after : SameFor i (b.run es).2 (c.run fs).2
  answers : answersTo i es (b.run es).1 = answersTo i fs (c.run fs).1
  handed : (b.run es).1.flatMap (handed i) = (c.run fs).1.flatMap (handed i)

theorem LooksSame.symm {i : Nat} {b c : Switchboard} {es fs : List Event} (h : LooksSame i b es c fs) :
    LooksSame i c fs b es :=
  ⟨h.after.symm, h.answers.symm, h.handed.symm⟩

theorem LooksSame.trans {i : Nat} {b c d : Switchboard} {es fs gs : List Event} (h : LooksSame i b es c fs)
    (h' : LooksSame i c fs d gs) : LooksSame i b es d gs :=
  ⟨h.after.trans h'.after, h.answers.trans h'.answers, h.handed.trans h'.handed⟩

theorem answersTo_cons (i : Nat) (e : Event) (es : List Event) (o : Out) (os : List Out) :
    answersTo i (e :: es) (o :: os) = (answerTo i e o).toList ++ answersTo i es os := by
  unfold answersTo
  rw [List.zip_cons_cons, List.filterMap_cons]
  cases answerTo i e o <;> rfl

/-- A run looks to a session as if there had been nothing in it but what concerns the session. -/
theorem seen_run {i : Nat} {b c : Switchboard} (hb : Enrolled b) (hc : Enrolled c) (h : SameFor i b c) (es : List Event) :
    LooksSame i b es c (es.filter (concerns i)) := by
  induction es generalizing b c with
  | nil => exact ⟨h, rfl, rfl⟩
  | cons e es ih =>
    cases he : concerns i e with
    | true =>
      -- both take the step
      have hrest := ih (enrolled_step b e hb) (enrolled_step c e hc) (sameFor_step h e hb hc)
      rw [List.filter_cons_of_pos he]
      refine ⟨hrest.after, ?_, ?_⟩
      · show answersTo i (e :: es) ((b.step e).1 :: ((b.step e).2.run es).1) =
          answersTo i (e :: es.filter (concerns i)) ((c.step e).1 :: ((c.step e).2.run (es.filter (concerns i))).1)
        rw [answersTo_cons, answersTo_cons, answerTo_congr h e, hrest.answers]
      · show ((b.step e).1 :: ((b.step e).2.run es).1).flatMap (handed i) =
          ((c.step e).1 :: ((c.step e).2.run (es.filter (concerns i))).1).flatMap (handed i)
        rw [List.flatMap_cons, List.flatMap_cons, handed_congr h e hb hc, hrest.handed]
    | false =>
      -- the first node goes ahead alone, the second one waits
      obtain ⟨hsame, hanswer, hhanded⟩ := sameFor_others hb he
      have hrest := ih (enrolled_step b e hb) hc (hsame.trans h)
      rw [List.filter_cons_of_neg (by simp [he])]
      refine ⟨hrest.after, ?_, ?_⟩
      · show answersTo i (e :: es) ((b.step e).1 :: ((b.step e).2.run es).1) = _
        rw [answersTo_cons, hanswer, hrest.answers]
        rfl
      · show ((b.step e).1 :: ((b.step e).2.run es).1).flatMap (handed i) = _
        rw [List.flatMap_cons, hhanded, hrest.handed]
        rfl

/-- Whatever is changed in a run about the other sessions' requests, what becomes of a session is the same, its
answers are the same and so is what it hands over; and so it goes on, whatever comes next in both runs. -/
theorem sessions_are_isolated {settings : Settings} {hasRuntime : Bool} {b : Switchboard}
    (h : Switchboard.start settings hasRuntime = .ok b) (i : Nat) {es fs : List Event}
    (hsame : es.filter (concerns i) = fs.filter (concerns i)) :
    LooksSame i b es b fs ∧
      ∀ e, let c := (b.run es).2
        let d := (b.run fs).2
        SameFor i (c.step e).2 (d.step e).2 ∧ answerTo i e (c.step e).1 = answerTo i e (d.step e).1 ∧
          handed i (c.step e).1 = handed i (d.step e).1 := by
  have hb : Enrolled b := enrolled_start h
  have hes := seen_run hb hb (SameFor.refl i b) es
  have hfs := seen_run hb hb (SameFor.refl i b) fs
  rw [← hsame] at hfs
  have hlooks : LooksSame i b es b fs := hes.trans hfs.symm
  refine ⟨hlooks, ?_⟩
  intro e
  have hc : Enrolled (b.run es).2 := enrolled_run h es
  have hd : Enrolled (b.run fs).2 := enrolled_run h fs
  exact ⟨sameFor_step hlooks.after e hc hd, answerTo_congr hlooks.after e, handed_congr hlooks.after e hc hd⟩

/-- One worker, with room for one batch. -/
def narrow : Settings := { Settings.standard with delivery := ⟨1, 1⟩ }

/-- Two sessions share a worker. The second asks for the same in both runs; the first
asks for as much, or takes all back and is closed. -/
def busyNeighbour : List Event :=
  [.openSession, .openSession, .request 1 (.subscribePending (some ⟨"a", none⟩)),
    .request 2 (.subscribePending (some ⟨"b", none⟩)), .signal (.pendingTransaction ⟨0, 0, 0, [], []⟩)]

def quietNeighbour : List Event :=
  [.openSession, .request 1 .unsubscribeAll, .openSession, .request 2 (.subscribePending (some ⟨"b", none⟩)), .close 1,
    .signal (.pendingTransaction ⟨0, 0, 0, [], []⟩)]

theorem sessions_are_isolated_of_neighbours :
    ∃ b, Switchboard.start narrow true = .ok b ∧
      busyNeighbour.filter (concerns 2) = quietNeighbour.filter (concerns 2) ∧
      LooksSame 2 b busyNeighbour b quietNeighbour ∧
      ((b.run busyNeighbour).1.flatMap (handed 2)).length = 1 ∧
      (Log.ofOuts (b.run busyNeighbour).1).accepted.map (·.session) = [1] ∧
      (Log.ofOuts (b.run quietNeighbour).1).accepted.map (·.session) = [2] := by
  refine ⟨_, rfl, ?_⟩
  have hsame : busyNeighbour.filter (concerns 2) = quietNeighbour.filter (concerns 2) := rfl
  obtain ⟨hlooks, -⟩ := @sessions_are_isolated narrow true _ rfl 2 busyNeighbour quietNeighbour hsame
  refine ⟨hsame, hlooks, ?_, ?_, ?_⟩
  · decide +kernel
  · decide +kernel
  · decide +kernel

end LedgerWatch.Switchboard
