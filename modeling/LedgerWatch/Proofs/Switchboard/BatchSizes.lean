/-
  LedgerWatch.Proofs.Switchboard.BatchSizes — how often the size of a change is recorded.

  The histogram of batch sizes is published as the number of object ids per change signal
  of the ledger. It is filled where a session works off a signal, before the session looks
  at what it has asked for (`sizes_notices`). So a signal of n ids is recorded

      as often as sessions are held by their connections, each time as n

  be they subscribed or closed, and not at all while there are none (`recordedAt`). What a
  run records can be read off its events without the node (`batchSize_run`).

  It is recorded once, as published, exactly when one session is held
  (`sizes_recorded_by_session`); two sessions make two of it (`one_change_recorded_twice`).
-/

import LedgerWatch.Proofs.Switchboard.Roster

namespace LedgerWatch

/-- What a signal says has changed. -/
def Signal.ids : Signal → List ObjectId
  | .created ids _ | .changed ids _ | .removed ids _ _ => ids
  | .blockApplied _ | .pendingTransaction _ => []

/-- The size of the change, if there is any. -/
def Signal.sizes (sig : Signal) : List Nat := if sig.ids.isEmpty then [] else [sig.ids.length]

theorem Signal.sizes_of_empty {sig : Signal} (h : sig.ids = []) : sig.sizes = [] := by
  rw [sizes, h]
  rfl

theorem Signal.sizes_of_some {sig : Signal} (h : sig.ids ≠ []) : sig.sizes = [sig.ids.length] :=
  if_neg fun hempty => h (List.isEmpty_iff.mp hempty)

/-- Whatever a session has asked for, it has a change recorded. -/
theorem Subscriptions.sizes_notices (l : Ledger) (s : Subscriptions) (sig : Signal) :
    (s.notices l sig).sizes = sig.sizes := by
  cases sig with
  | created | changed | removed => exact apply_ite Notices.sizes _ _ _
  | blockApplied => rfl
  | pendingTransaction t =>
    simp only [notices, pendingNotices]
    split <;> rfl

namespace Histogram

theorem count_foldl_observe (h : Histogram) (sizes : List Nat) :
    (sizes.foldl observe h).count = h.count + sizes.length := by
  induction sizes generalizing h with
  | nil => rfl
  | cons n sizes ih =>
    rw [List.foldl_cons, ih, List.length_cons]
    show h.count + 1 + sizes.length = _
    omega

theorem sum_foldl_observe (h : Histogram) (sizes : List Nat) :
    (sizes.foldl observe h).sum = sizes.foldl (· + ·) h.sum := by
  induction sizes generalizing h with
  | nil => rfl
  | cons n sizes ih => exact ih (h.observe n)

theorem sum_foldl_replicate (h : Histogram) (times size : Nat) :
    ((List.replicate times size).foldl observe h).sum = h.sum + times * size := by
  induction times generalizing h with
  | zero => rw [Nat.zero_mul]; rfl
  | succ times ih =>
    rw [List.replicate_succ, List.foldl_cons, ih, Nat.succ_mul]
    show h.sum + size + times * size = _
    omega

end Histogram

namespace Switchboard

/-! ## What one event records -/

/-- The sizes an event records, going by the connections alone. -/
def recordedAt (k : Connections) : Event → List Nat
  | .signal sig => k.held.flatMap fun _ => sig.sizes
  | .signalTo id sig => if id ∈ k.held then sig.sizes else []
  | .openSession | .drop _ | .request _ _ | .close _ | .insert _ | .erase _ | .apply _ | .work _ _ | .drain _
  | .shutdown => []

theorem sizes_noticesFor {b : Switchboard} {id : Nat} (h : b.sessions.contains id = true) (sig : Signal) :
    (b.noticesFor sig id).sizes = sig.sizes := by
  obtain ⟨s, hs⟩ := Option.isSome_iff_exists.mp h
  simp only [noticesFor, hs, Subscriptions.sizes_notices]

theorem batchSize_signal (b : Switchboard) (sig : Signal) :
    (b.signal sig).2.batchSize = (b.present.flatMap fun _ => sig.sizes).foldl Histogram.observe b.batchSize := by
  have hsizes : (b.present.flatMap fun id => (b.noticesFor sig id).sizes) = b.present.flatMap fun _ => sig.sizes := by
    refine congrArg List.flatten (List.map_congr_left fun id hid => ?_)
    exact sizes_noticesFor (List.mem_filter.mp hid).2 sig
  rw [(toldTo_present b sig).sizes, hsizes]

theorem batchSize_step {b : Switchboard} (hb : Enrolled b) {k : Connections} (h : Follows b k) (e : Event) :
    (b.step e).2.batchSize = (recordedAt k e).foldl Histogram.observe b.batchSize := by
  have hheld : ∀ id, b.sessions.contains id = true ↔ id ∈ k.held := by
    intro id
    rw [← h.present, mem_present_iff hb]
  cases e with
  | signal sig =>
    show (b.signal sig).2.batchSize = _
    rw [batchSize_signal, h.present]
    rfl
  | signalTo id sig =>
    simp only [recordedAt, ← hheld]
    cases hs : b.sessions.get? id with
    | none => simp only [step, hs, SortedMap.contains, Option.isSome_none, Bool.false_eq_true, if_false, List.foldl_nil]
    | some s =>
      have hin : b.sessions.contains id = true := by rw [SortedMap.contains, hs]; rfl
      simp only [step, hs, if_pos hin, (tell_eq b sig id).2, sizes_noticesFor hin]
  | drop id | request id r | close id =>
    simp only [step]
    split <;> rfl
  | shutdown =>
    obtain ⟨p, m, heq⟩ := closeAll_frame b.prune b.present
    show (b.present.foldl closeHeld b.prune).batchSize = b.batchSize
    rw [heq]
    rfl
  | openSession | insert | erase | apply | work | drain => rfl

/-! ## What a run records -/

/-- The sizes recorded along a run. -/
def recorded (k : Connections) : List Event → List Nat
  | [] => []
  | e :: es => recordedAt k e ++ recorded (k.after e) es

theorem batchSize_run {b : Switchboard} (hb : Enrolled b) {k : Connections} (h : Follows b k) (es : List Event) :
    (b.run es).2.batchSize = (recorded k es).foldl Histogram.observe b.batchSize := by
  induction es generalizing b k with
  | nil => rfl
  | cons e es ih =>
    rw [recorded, List.foldl_append, ← batchSize_step hb h e]
    exact ih (enrolled_step b e hb) (follows_step h e)

/-- The size of a change the ledger signals to all. -/
def signalled : Event → List Nat
  | .signal sig => sig.sizes
  | .signalTo _ _ | .openSession | .drop _ | .request _ _ | .close _ | .insert _ | .erase _ | .apply _ | .work _ _
  | .drain _ | .shutdown => []

/-- A change signalled to all is heard by one session, and none is signalled to a session by itself. -/
def HeardOnce (k : Connections) : Event → Prop
  | .signal sig => sig.ids = [] ∨ k.held.length = 1
  | .signalTo id sig => sig.ids = [] ∨ id ∉ k.held
  | .openSession | .drop _ | .request _ _ | .close _ | .insert _ | .erase _ | .apply _ | .work _ _ | .drain _
  | .shutdown => True

theorem recordedAt_of_heardOnce {k : Connections} {e : Event} (h : HeardOnce k e) : recordedAt k e = signalled e := by
  cases e with
  | signal sig =>
    rcases h with hempty | hone
    · simp only [recordedAt, signalled, Signal.sizes_of_empty hempty, List.flatMap_eq_nil_iff, implies_true]
    · obtain ⟨id, hid⟩ := List.length_eq_one_iff.mp hone
      simp only [recordedAt, signalled, hid, List.flatMap_singleton]
  | signalTo id sig =>
    rcases h with hempty | hnone
    · simp only [recordedAt, signalled, Signal.sizes_of_empty hempty, ite_self]
    · exact if_neg hnone
  | openSession | drop | request | close | insert | erase | apply | work | drain | shutdown => rfl

/-- All along a run. -/
def AllHeardOnce (k : Connections) : List Event → Prop
  | [] => True
  | e :: es => HeardOnce k e ∧ AllHeardOnce (k.after e) es

theorem recorded_of_allHeardOnce {k : Connections} {es : List Event} (h : AllHeardOnce k es) :
    recorded k es = es.flatMap signalled := by
  induction es generalizing k with
  | nil => rfl
  | cons e es ih => rw [recorded, recordedAt_of_heardOnce h.1, ih h.2, List.flatMap_cons]

/-! ## How often -/

/-- What is recorded, so many times over. -/
structure RecordedTimes (before after : Histogram) (times size : Nat) : Prop where
  histogram : after = (List.replicate times size).foldl Histogram.observe before
  count : after.count = before.count + times
  sum : after.sum = before.sum + times * size

theorem recorded_signal (b : Switchboard) {sig : Signal} (h : sig.ids ≠ []) :
    RecordedTimes b.batchSize (b.signal sig).2.batchSize b.present.length sig.ids.length := by
  have hsizes : (b.present.flatMap fun _ => sig.sizes) = List.replicate b.present.length sig.ids.length := by
    rw [Signal.sizes_of_some h, ← List.map_eq_flatMap, List.map_const']
  have heq := batchSize_signal b sig
  rw [hsizes] at heq
  refine ⟨heq, ?_, ?_⟩
  · rw [heq, Histogram.count_foldl_observe, List.length_replicate]
  · rw [heq, Histogram.sum_foldl_replicate]

theorem RecordedTimes.once_iff {before after : Histogram} {times size : Nat}
    (h : RecordedTimes before after times size) :
    after.count = before.count + 1 ∧ after.sum = before.sum + size ↔ times = 1 := by
  rw [h.count, h.sum]
  constructor
  · rintro ⟨hcount, -⟩
    omega
  · rintro rfl
    exact ⟨rfl, by rw [Nat.one_mul]⟩

/-- Whether the ledger signals to all that anything has changed. -/
def isChange : Event → Bool
  | .signal sig => !sig.ids.isEmpty
  | .signalTo _ _ | .openSession | .drop _ | .request _ _ | .close _ | .insert _ | .erase _ | .apply _ | .work _ _
  | .drain _ | .shutdown => false

theorem length_signalled (es : List Event) : (es.flatMap signalled).length = es.countP isChange := by
  induction es with
  | nil => rfl
  | cons e es ih =>
    have hone : (signalled e).length = if isChange e = true then 1 else 0 := by
      cases e with
      | signal sig =>
        by_cases hempty : sig.ids = []
        · simp only [signalled, Signal.sizes_of_empty hempty, isChange, hempty]
          rfl
        · simp only [signalled, Signal.sizes_of_some hempty, isChange, List.isEmpty_eq_false_iff.mpr hempty]
          rfl
      | signalTo | openSession | drop | request | close | insert | erase | apply | work | drain | shutdown => rfl
    rw [List.flatMap_cons, List.length_append, List.countP_cons, hone, ih, Nat.add_comm]

/-- Each change signalled is recorded once for every session that is held, and with its size each time: as one only if
one session is held. What a run records follows from its events and connections, and is each of the changes once if
there is one listener to each. -/
theorem sizes_recorded_by_session {settings : Settings} {hasRuntime : Bool} {b : Switchboard}
    (h : Switchboard.start settings hasRuntime = .ok b) (es : List Event) :
    let c := (b.run es).2
    let k := connections es
    (∀ sig, sig.ids = [] → (c.signal sig).2.batchSize = c.batchSize) ∧
      (∀ sig, sig.ids ≠ [] →
        let after := (c.signal sig).2.batchSize
        RecordedTimes c.batchSize after k.held.length sig.ids.length ∧
          (after.count = c.batchSize.count + 1 ∧ after.sum = c.batchSize.sum + sig.ids.length ↔ k.held.length = 1)) ∧
      c.batchSize = (recorded ⟨0, []⟩ es).foldl Histogram.observe .zero ∧
      c.batchSize.count = (recorded ⟨0, []⟩ es).length ∧ c.batchSize.sum = (recorded ⟨0, []⟩ es).foldl (· + ·) 0 ∧
      (AllHeardOnce ⟨0, []⟩ es → c.batchSize = (es.flatMap signalled).foldl Histogram.observe .zero ∧
        c.batchSize.count = es.countP isChange) := by
  intro c k
  have hfollows : Follows c k := follows_run (follows_start h) es
  have hzero : b.batchSize = .zero := by
    obtain ⟨p, -, rfl⟩ := start_ok h
    rfl
  have hrun : c.batchSize = (recorded ⟨0, []⟩ es).foldl Histogram.observe .zero :=
    hzero ▸ batchSize_run (enrolled_start h) (follows_start h) es
  have hcount : c.batchSize.count = (recorded ⟨0, []⟩ es).length := by
    rw [hrun, Histogram.count_foldl_observe]
    exact Nat.zero_add _
  refine ⟨?_, ?_, hrun, hcount, ?_, ?_⟩
  · intro sig hempty
    rw [batchSize_signal, Signal.sizes_of_empty hempty, List.flatMap_eq_nil_iff.mpr fun _ _ => rfl]
    rfl
  · intro sig hsome after
    have hrecorded := recorded_signal c hsome
    rw [hfollows.present] at hrecorded
    exact ⟨hrecorded, hrecorded.once_iff⟩
  · rw [hrun, Histogram.sum_foldl_observe]
    rfl
  · intro hone
    rw [recorded_of_allHeardOnce hone] at hrun hcount
    exact ⟨hrun, hcount.trans (length_signalled es)⟩

/-- Two sessions are held while nothing has changed, and one when something has. -/
def oneListener : List Event :=
  [.openSession, .openSession, .signal (.changed [] .empty), .drop 1,
    .signal (.created [Kind.account.id 5, Kind.account.id 6] .empty)]

theorem sizes_recorded_by_session_of_one :
    ∃ b, Switchboard.start .standard true = .ok b ∧ AllHeardOnce ⟨0, []⟩ oneListener ∧
      let c := (b.run oneListener).2
      let after := (c.signal (.removed [Kind.account.id 6] [] .empty)).2.batchSize
      c.batchSize.count = 1 ∧ c.batchSize.sum = 2 ∧ after.count = 2 ∧ after.sum = 3 ∧
        (c.signal (.changed [] .empty)).2.batchSize = c.batchSize := by
  have hheard : AllHeardOnce ⟨0, []⟩ oneListener := ⟨trivial, trivial, .inl rfl, trivial, .inr rfl, trivial⟩
  refine ⟨_, rfl, hheard, ?_⟩
  intro c after
  obtain ⟨hnothing, hchange, -, -, hsum, hrun⟩ := @sizes_recorded_by_session .standard true _ rfl oneListener
  have hone : c.batchSize.count = 1 := (hrun hheard).2
  obtain ⟨hafterCount, hafterSum⟩ := (hchange (.removed [Kind.account.id 6] [] .empty) nofun).2.mpr rfl
  refine ⟨hone, hsum, ?_, ?_, hnothing _ rfl⟩
  · exact hafterCount.trans (congrArg (· + 1) hone)
  · exact hafterSum.trans (congrArg (· + 1) hsum)

/-- Two sessions are held and one object changes. -/
theorem one_change_recorded_twice :
    ∃ b, Switchboard.start .standard true = .ok b ∧
      let c := (b.run [.openSession, .openSession]).2
      let after := (c.signal (.changed [Kind.account.id 5] .empty)).2.batchSize
      c.batchSize.count = 0 ∧ after.count = 2 ∧ after.sum = 2 :=
  ⟨_, rfl, rfl, by decide +kernel, by decide +kernel⟩

end Switchboard

end LedgerWatch
