/-
  LedgerWatch.Proofs.Switchboard.Roster — signals go to the sessions that are held, and to no others.

  Which sessions are held is a matter of the connections alone: one opens and gets the
  next number, another lets go (`connections`). The roster keeps up with them lazily; it
  may still list sessions that are gone, but

      the roster, less those that are gone = the sessions held, in opening order

  in every state (`follows_run`). A signal goes by the left side, and is worked off for
  one session after another (`toldTo_present`).

  When the roster is put in order makes no difference: to do so at any moment changes no
  outcome of any event from then on (`run_alike`).

  Numbers are naturals: a counter of 64 bits is the same until it runs out.
-/

import LedgerWatch.Proofs.Switchboard.Sessions

namespace LedgerWatch.Switchboard

/-! ## Connections -/

/-- What becomes of the connections: how many sessions were opened, and those still held, in opening order. -/
structure Connections where
  opened : Nat
  held : List Nat

namespace Connections

def after (k : Connections) : Event → Connections
  | .openSession => ⟨k.opened + 1, k.held ++ [k.opened + 1]⟩
  | .drop id => { k with held := k.held.filter (· ≠ id) }
  | .request _ _ | .close _ | .insert _ | .erase _ | .apply _ | .signal _ | .signalTo _ _ | .work _ _ | .drain _
  | .shutdown => k

/-- Sessions are held in the order of their numbers. -/
structure Numbered (k : Connections) : Prop where
  increasing : k.held.Pairwise (· < ·)
  given : ∀ id ∈ k.held, id ≤ k.opened

theorem numbered_after {k : Connections} (h : k.Numbered) (e : Event) : (k.after e).Numbered := by
  cases e with
  | openSession =>
    constructor
    · refine List.pairwise_append.mpr ⟨h.increasing, List.pairwise_singleton _ _, ?_⟩
      intro id hid next hnext
      have hle := h.given id hid
      rw [List.mem_singleton.mp hnext]
      omega
    · intro id hid
      show id ≤ k.opened + 1
      rcases List.mem_append.mp hid with hid | hid
      · have hle := h.given id hid
        omega
      · have hnext := List.mem_singleton.mp hid
        omega
  | drop id =>
    constructor
    · exact h.increasing.filter _
    · intro id' hid
      exact h.given id' (List.mem_filter.mp hid).1
  | request | close | insert | erase | apply | signal | signalTo | work | drain | shutdown => exact h

theorem numbered_run {k : Connections} (h : k.Numbered) (es : List Event) : (es.foldl after k).Numbered := by
  induction es generalizing k with
  | nil => exact h
  | cons e es ih => exact ih (numbered_after h e)

end Connections

def connections (es : List Event) : Connections := es.foldl .after ⟨0, []⟩

/-- The number given to a session that was opened. -/
def number? : Out → Option Nat
  | .opened id => some id
  | .dropped _ | .replied _ | .noSession | .done | .previous _ | .offered _ | .ran _ => none

theorem number?_step (b : Switchboard) {e : Event} (h : e ≠ .openSession) : number? (b.step e).1 = none := by
  cases e with
  | openSession => contradiction
  | drop id => simp only [step]; split <;> rfl
  | request id r => simp only [step]; split <;> rfl
  | close id => simp only [step]; split <;> rfl
  | signalTo id sig => simp only [step]; split <;> rfl
  | insert r | erase id | apply ops | signal sig | work w outcome | drain t | shutdown => rfl

/-! ## The roster keeps up -/

structure Follows (b : Switchboard) (k : Connections) : Prop where
  opened : b.pool.opened = k.opened
  present : b.present = k.held

theorem follows_step {b : Switchboard} {k : Connections} (h : Follows b k) (e : Event) :
    Follows (b.step e).2 (k.after e) := by
  by_cases hopen : e = .openSession
  · subst hopen
    refine ⟨congrArg (· + 1) h.opened, ?_⟩
    show b.openSession.2.present = k.held ++ [k.opened + 1]
    rw [present_openSession, h.present, h.opened]
  have hheld : ∀ id ∈ b.present, b.sessions.contains id = true := by
    intro id hid
    exact (List.mem_filter.mp hid).2
  cases e with
  | openSession => contradiction
  | drop k' =>
    refine ⟨(opened_step b hopen).trans h.opened, ?_⟩
    show _ = k.held.filter (· ≠ k')
    rw [present_step b hopen, ← h.present]
    refine List.filter_congr ?_
    intro id hid
    rw [SortedMap.contains, get?_step, sessionAfter]
    by_cases hk : k' = id
    · simp [hk]
    · rw [if_neg hk, ← SortedMap.contains, hheld id hid]
      simp [Ne.symm hk]
  | request | close | insert | erase | apply | signal | signalTo | work | drain | shutdown =>
    refine ⟨(opened_step b hopen).trans h.opened, ?_⟩
    show _ = k.held
    rw [present_step b hopen, ← h.present]
    refine List.filter_eq_self.mpr ?_
    intro id hid
    rw [contains_step b hopen (by simp)]
    exact hheld id hid

theorem follows_run {b : Switchboard} {k : Connections} (h : Follows b k) (es : List Event) :
    Follows (b.run es).2 (es.foldl .after k) := by
  induction es generalizing b k with
  | nil => exact h
  | cons e es ih => exact ih (follows_step h e)

/-- Numbers go on from where they were. -/
theorem numbers_run {b : Switchboard} {k : Connections} (h : Follows b k) (es : List Event) :
    List.range' 1 k.opened ++ (b.run es).1.filterMap number? = List.range' 1 (es.foldl .after k).opened := by
  induction es generalizing b k with
  | nil => exact List.append_nil _
  | cons e es ih =>
    have hrest := ih (follows_step h e)
    show List.range' 1 k.opened ++ ((b.step e).1 :: ((b.step e).2.run es).1).filterMap number? = _
    by_cases hopen : e = .openSession
    · subst hopen
      have hnumber : number? (b.step .openSession).1 = some (k.opened + 1) := congrArg (fun n => some (n + 1)) h.opened
      rw [List.filterMap_cons_some hnumber, List.foldl_cons, ← hrest]
      show _ = List.range' 1 (k.opened + 1) ++ _
      rw [List.range'_1_concat, List.append_assoc, Nat.add_comm 1 k.opened]
      rfl
    · have hopened : (k.after e).opened = k.opened := by
        rw [← (follows_step h e).opened, opened_step b hopen, h.opened]
      rw [List.filterMap_cons_none (number?_step b hopen), List.foldl_cons, ← hrest, hopened]

theorem follows_start {settings : Settings} {hasRuntime : Bool} {b : Switchboard}
    (h : Switchboard.start settings hasRuntime = .ok b) : Follows b ⟨0, []⟩ := by
  obtain ⟨p, hp, rfl⟩ := start_ok h
  exact ⟨congrArg Pool.opened (Pool.start_ok hp).2, rfl⟩

/-! ## A signal is told to each -/

/-- What one session has to say to a signal. -/
def noticesFor (b : Switchboard) (sig : Signal) (id : Nat) : Notices :=
  match b.sessions.get? id with
  | none => .none
  | some s => s.notices b.ledger sig

theorem batchesFor_eq (b : Switchboard) (sig : Signal) (id : Nat) : b.batchesFor sig id = (b.noticesFor sig id).batches := by
  unfold batchesFor noticesFor
  cases b.sessions.get? id <;> rfl

theorem tell_eq (b : Switchboard) (sig : Signal) (id : Nat) :
    (b.tell sig id).2.anomalies = b.anomalies + (b.noticesFor sig id).anomalies ∧
      (b.tell sig id).2.batchSize = (b.noticesFor sig id).sizes.foldl Histogram.observe b.batchSize := by
  unfold tell noticesFor
  cases b.sessions.get? id <;> exact ⟨rfl, rfl⟩

theorem noticesFor_tell (b : Switchboard) (sig : Signal) (id : Nat) :
    (b.tell sig id).2.noticesFor sig = b.noticesFor sig := by
  funext id'
  simp only [noticesFor, tell_sessions, tell_ledger]

/-- A signal is worked off once for each of the sessions, one after the other: its batches are handed over, what
does not resolve is counted, and so are the sizes of what it looked at. -/
structure ToldTo (b : Switchboard) (sig : Signal) (ids : List Nat) : Prop where
  oneByOne : b.signal sig = tellAll sig b.prune ids
  offered : (b.signal sig).1.map (·.job) = ids.flatMap fun id => (b.noticesFor sig id).batches.map (⟨id, ·⟩)
  anomalies : (b.signal sig).2.anomalies = ids.foldl (fun n id => n + (b.noticesFor sig id).anomalies) b.anomalies
  sizes : (b.signal sig).2.batchSize = (ids.flatMap fun id => (b.noticesFor sig id).sizes).foldl Histogram.observe b.batchSize

theorem tellAll_counts (sig : Signal) (b : Switchboard) (ids : List Nat) :
    (tellAll sig b ids).2.anomalies = ids.foldl (fun n id => n + (b.noticesFor sig id).anomalies) b.anomalies ∧
      (tellAll sig b ids).2.batchSize =
        (ids.flatMap fun id => (b.noticesFor sig id).sizes).foldl Histogram.observe b.batchSize := by
  induction ids generalizing b with
  | nil => exact ⟨rfl, rfl⟩
  | cons id ids ih =>
    obtain ⟨hanomalies, hsizes⟩ := tell_eq b sig id
    obtain ⟨hrest1, hrest2⟩ := ih (b.tell sig id).2
    rw [noticesFor_tell] at hrest1 hrest2
    rw [tellAll_cons]
    refine ⟨?_, ?_⟩
    · rw [List.foldl_cons, ← hanomalies]
      exact hrest1
    · rw [List.flatMap_cons, List.foldl_append, ← hsizes]
      exact hrest2

theorem toldTo_present (b : Switchboard) (sig : Signal) : ToldTo b sig b.present := by
  obtain ⟨hanomalies, hsizes⟩ := tellAll_counts sig b.prune b.present
  refine ⟨rfl, ?_, hanomalies, hsizes⟩
  rw [jobs_signal]
  simp only [batchesFor_eq]

/-! ## It makes no difference when the roster is put in order -/

@[simp] theorem prune_sessions (b : Switchboard) : b.prune.sessions = b.sessions := rfl

theorem prune_prune (b : Switchboard) : b.prune.prune = b.prune := by
  have h : b.present.filter b.sessions.contains = b.present := by rw [present, List.filter_filter]; simp only [Bool.and_self]
  show { b with roster := b.present.filter b.sessions.contains,
                activeSessions := (b.present.filter b.sessions.contains).length } = b.prune
  rw [h]
  rfl

theorem sessionCount_eq (b : Switchboard) : b.sessionCount = b.present.length := List.countP_eq_length_filter

/-- Either an event puts the roster in order itself, or it takes no notice of it. -/
theorem step_prune (b : Switchboard) (e : Event) :
    b.prune.step e = b.step e ∨ e ≠ .openSession ∧ b.prune.step e =
      ((b.step e).1, { (b.step e).2 with roster := b.present, activeSessions := b.present.length }) := by
  cases e with
  | openSession =>
    left
    have h : b.prune.roster.filter b.prune.sessions.contains = b.roster.filter b.sessions.contains :=
      congrArg roster (prune_prune b)
    unfold step openSession
    rw [h]
    rfl
  | signal sig =>
    left
    simp only [step, signal, prune_prune]
  | shutdown =>
    left
    simp only [step, shutdown, prune_prune]
  | drop id =>
    refine .inr ⟨by simp, ?_⟩
    show (if b.sessions.contains id then (Out.dropped true, b.prune.dropSession id) else (.dropped false, b.prune)) = _
    simp only [step]
    split <;> rfl
  | request id r =>
    refine .inr ⟨by simp, ?_⟩
    simp only [step, prune_sessions]
    cases b.sessions.get? id <;> rfl
  | close id =>
    refine .inr ⟨by simp, ?_⟩
    simp only [step, prune_sessions]
    cases b.sessions.get? id <;> rfl
  | signalTo id sig =>
    refine .inr ⟨by simp, ?_⟩
    simp only [step, prune_sessions, tell]
    cases b.sessions.get? id <;> rfl
  | insert | erase | apply | work | drain => exact .inr ⟨by simp, rfl⟩

theorem step_in_order (b : Switchboard) (e : Event) :
    (b.prune.step e).1 = (b.step e).1 ∧ (b.prune.step e).2.prune = (b.step e).2.prune := by
  rcases step_prune b e with h | ⟨hopen, h⟩
  · rw [h]
    exact ⟨rfl, rfl⟩
  · rw [h]
    refine ⟨rfl, ?_⟩
    show { (b.step e).2 with roster := b.present.filter (b.step e).2.sessions.contains,
                             activeSessions := (b.present.filter (b.step e).2.sessions.contains).length } = _
    rw [← present_step b hopen]
    rfl

/-- Nodes that differ by nothing but the sessions that are gone from their rosters go on alike. -/
theorem step_alike {b c : Switchboard} (h : b.prune = c.prune) (e : Event) :
    (b.step e).1 = (c.step e).1 ∧ (b.step e).2.prune = (c.step e).2.prune := by
  obtain ⟨hb1, hb2⟩ := step_in_order b e
  obtain ⟨hc1, hc2⟩ := step_in_order c e
  rw [← hb1, ← hb2, ← hc1, ← hc2, h]
  exact ⟨rfl, rfl⟩

theorem run_alike {b c : Switchboard} (h : b.prune = c.prune) (es : List Event) :
    (b.run es).1 = (c.run es).1 ∧ (b.run es).2.prune = (c.run es).2.prune := by
  induction es generalizing b c with
  | nil => exact ⟨rfl, h⟩
  | cons e es ih =>
    obtain ⟨hout, hnext⟩ := step_alike h e
    obtain ⟨houts, hlast⟩ := ih hnext
    refine ⟨?_, hlast⟩
    show (b.step e).1 :: ((b.step e).2.run es).1 = (c.step e).1 :: ((c.step e).2.run es).1
    rw [hout, houts]

/-! ## Signals and numbers -/

/-- Whatever happens to sessions, each signal is worked off exactly once for each one that is still held by its
connection, in opening order, and for no other, and these are the ones that are counted; whether the roster is put
in order on the way is not to be noticed. Sessions are numbered from 1 on as they open, without a number coming back. -/
theorem signals_go_to_held {settings : Settings} {hasRuntime : Bool} {b : Switchboard}
    (h : Switchboard.start settings hasRuntime = .ok b) (es : List Event) :
    let c := (b.run es).2
    let k := connections es
    c.sessionCount = k.held.length ∧
      (∀ id, c.sessions.contains id = true ↔ id ∈ k.held) ∧
      k.held.Pairwise (· < ·) ∧
      (∀ sig, ToldTo c sig k.held) ∧
      (∀ later, (c.prune.run later).1 = (c.run later).1 ∧
        (c.prune.run later).2.sessionCount = (c.run later).2.sessionCount) ∧
      (b.run es).1.filterMap number? = List.range' 1 k.opened := by
  intro c k
  have hfollows : Follows c k := follows_run (follows_start h) es
  have hnumbered : k.Numbered := Connections.numbered_run ⟨.nil, by simp⟩ es
  refine ⟨?_, ?_, hnumbered.increasing, ?_, ?_, numbers_run (follows_start h) es⟩
  · rw [sessionCount_eq, hfollows.present]
  · intro id
    rw [← hfollows.present]
    exact (mem_present_iff (enrolled_run h es) id).symm
  · intro sig
    rw [← hfollows.present]
    exact toldTo_present c sig
  · intro later
    obtain ⟨houts, hlast⟩ := run_alike (prune_prune c) later
    refine ⟨houts, ?_⟩
    rw [sessionCount_eq, sessionCount_eq]
    exact congrArg (fun d => d.roster.length) hlast

/-- Two sessions are let go of; the one after the last session opened is still listed. The last session, opened when
the workers have stopped, is the only one to ask for anything. -/
def twoLetGo : List Event :=
  [.openSession, .openSession, .openSession, .drop 1, .shutdown, .openSession,
    .request 4 (.subscribePending (some ⟨"a", none⟩)), .drop 3]

theorem signals_go_to_held_of_two :
    ∃ b, Switchboard.start .standard true = .ok b ∧
      let c := (b.run twoLetGo).2
      let sig := .pendingTransaction ⟨0, 0, 0, [], []⟩
      c.roster = [2, 3, 4] ∧ c.sessionCount = 2 ∧ (b.run twoLetGo).1.filterMap number? = [1, 2, 3, 4] ∧
        ToldTo c sig [2, 4] ∧ (c.signal sig).1.map (·.job.session) = [4] := by
  refine ⟨_, rfl, ?_⟩
  obtain ⟨hcount, -, -, htold, -, hnumbers⟩ := @signals_go_to_held .standard true _ rfl twoLetGo
  exact ⟨by decide +kernel, hcount, hnumbers, htold _, by decide +kernel⟩

end LedgerWatch.Switchboard
