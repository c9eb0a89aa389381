/-
  LedgerWatch.Proofs.Switchboard.Sessions — what an event does, session by session.

  `get?_step` says what any event makes of any session (`sessionAfter`): it is opened,
  served, closed or dropped, or it stays as it is. Settings never change, and the ledger
  changes only when it is told to (`world_step`).

  `enrolled_run`: the roster never names a session twice and misses none that is held. So
  the sessions present are those that are held, each of them once (`present_held`), and a
  step keeps of them the ones it leaves (`present_step`).
-/

import LedgerWatch.Proofs.Switchboard.Runs

namespace LedgerWatch.Switchboard

/-! ## What an event does to one session -/

/-- A session after an event. -/
def sessionAfter (b : Switchboard) (id : Nat) : Event → Option Subscriptions
  | .openSession => if b.pool.opened + 1 = id then some (.new b.settings) else b.sessions.get? id
  | .drop k => if k = id then none else b.sessions.get? id
  | .request k r => if k = id then (b.sessions.get? id).map fun s => (s.serve b.ledger r).2 else b.sessions.get? id
  | .close k => if k = id then (b.sessions.get? id).map Subscriptions.tearDown else b.sessions.get? id
  | .shutdown => if id ∈ b.present then (b.sessions.get? id).map Subscriptions.tearDown else b.sessions.get? id
  | .insert _ | .erase _ | .apply _ | .signal _ | .signalTo _ _ | .work _ _ | .drain _ => b.sessions.get? id

theorem get?_step (b : Switchboard) (e : Event) (id : Nat) : (b.step e).2.sessions.get? id = b.sessionAfter id e := by
  cases e with
  | openSession => exact SortedMap.get?_insert b.sessions (b.pool.opened + 1) id (.new b.settings)
  | drop k =>
    simp only [step, sessionAfter]
    split
    · exact SortedMap.get?_erase b.sessions k id
    · rename_i hk
      have hnone : b.sessions.get? k = none := by simpa [SortedMap.contains] using hk
      split
      · rename_i hid
        rw [← hid, hnone]
      · rfl
  | request k r =>
    simp only [step, sessionAfter]
    split
    · rename_i hnone
      exact get?_no_update hnone (fun s => (s.serve b.ledger r).2) id
    · rename_i s hs
      exact get?_update hs (fun s => (s.serve b.ledger r).2) id
  | close k =>
    simp only [step, sessionAfter]
    split
    · rename_i hnone
      exact get?_no_update hnone Subscriptions.tearDown id
    · rename_i s hs
      exact get?_update hs Subscriptions.tearDown id
  | signal sig =>
    obtain ⟨p, n, h, heq⟩ := tellAll_frame sig b.prune b.present
    exact congrArg (fun c => c.sessions.get? id) heq
  | signalTo k sig =>
    simp only [step, sessionAfter]
    split
    · rfl
    · rw [tell_sessions]
  | shutdown => exact closeAll_get? b.prune b.present id
  | insert r | erase k | apply ops | work w outcome | drain t => rfl

/-- A session held after an event was held before it as it is now, or has just been opened, or has been served
a request of its own, or has been closed. -/
theorem session_cases {b : Switchboard} {e : Event} {id : Nat} {s' : Subscriptions}
    (h : (b.step e).2.sessions.get? id = some s') :
    (b.sessions.get? id = some s' ∧ ∀ r, e ≠ .request id r) ∨ (e = .openSession ∧ s' = .new b.settings) ∨
      ∃ s, b.sessions.get? id = some s ∧
        ((∃ r, e = .request id r ∧ s' = (s.serve b.ledger r).2) ∨ s' = s.tearDown) := by
  rw [get?_step] at h
  cases e with
  | openSession =>
    simp only [sessionAfter] at h
    split at h
    · exact .inr (.inl ⟨rfl, (Option.some.inj h).symm⟩)
    · exact .inl ⟨h, fun r => nofun⟩
  | drop k =>
    simp only [sessionAfter] at h
    split at h
    · contradiction
    · exact .inl ⟨h, fun r => nofun⟩
  | request k r =>
    simp only [sessionAfter] at h
    split at h
    · rename_i hk
      obtain ⟨s, hs, rfl⟩ := Option.map_eq_some_iff.mp h
      exact .inr (.inr ⟨s, hs, .inl ⟨r, hk ▸ rfl, rfl⟩⟩)
    · rename_i hk
      exact .inl ⟨h, fun r' hr => hk (Event.request.inj hr).1⟩
  | close k | shutdown =>
    simp only [sessionAfter] at h
    split at h
    · obtain ⟨s, hs, rfl⟩ := Option.map_eq_some_iff.mp h
      exact .inr (.inr ⟨s, hs, .inr rfl⟩)
    · exact .inl ⟨h, fun r => nofun⟩
  | insert r | erase k | apply ops | signal sig | signalTo k sig | work w outcome | drain t =>
    exact .inl ⟨h, fun r => nofun⟩

/-- Only opening adds a session. -/
theorem held_before {b : Switchboard} {e : Event} {id : Nat} (he : e ≠ .openSession)
    (h : (b.step e).2.sessions.contains id = true) : b.sessions.contains id = true := by
  obtain ⟨s', hs'⟩ := Option.isSome_iff_exists.mp h
  rw [SortedMap.contains]
  rcases session_cases hs' with ⟨hs, -⟩ | ⟨hopen, -⟩ | ⟨s, hs, -⟩
  · rw [hs]; rfl
  · contradiction
  · rw [hs]; rfl

def ledgerAfter (l : Ledger) : Event → Ledger
  | .insert r => l.insert r
  | .erase id => l.erase id
  | .apply ops => l.apply ops
  | .openSession | .drop _ | .request _ _ | .close _ | .signal _ | .signalTo _ _ | .work _ _ | .drain _ | .shutdown => l

theorem world_step (b : Switchboard) (e : Event) :
    (b.step e).2.settings = b.settings ∧ (b.step e).2.ledger = ledgerAfter b.ledger e := by
  cases e with
  | drop k => simp only [step]; split <;> exact ⟨rfl, rfl⟩
  | request k r => simp only [step]; split <;> exact ⟨rfl, rfl⟩
  | close k => simp only [step]; split <;> exact ⟨rfl, rfl⟩
  | signal sig =>
    obtain ⟨p, n, h, heq⟩ := tellAll_frame sig b.prune b.present
    show (tellAll sig b.prune b.present).2.settings = b.settings ∧ (tellAll sig b.prune b.present).2.ledger = b.ledger
    rw [heq]
    exact ⟨rfl, rfl⟩
  | signalTo k sig =>
    obtain ⟨p, n, h, heq⟩ := tell_frame b sig k
    simp only [step]
    split
    · exact ⟨rfl, rfl⟩
    · rw [heq]
      exact ⟨rfl, rfl⟩
  | shutdown =>
    obtain ⟨p, m, heq⟩ := closeAll_frame b.prune b.present
    show (b.present.foldl closeHeld b.prune).settings = b.settings ∧ (b.present.foldl closeHeld b.prune).ledger = b.ledger
    rw [heq]
    exact ⟨rfl, rfl⟩
  | openSession | insert r | erase id | apply ops | work w outcome | drain t => exact ⟨rfl, rfl⟩

theorem settings_run {settings : Settings} {hasRuntime : Bool} {b : Switchboard}
    (h : Switchboard.start settings hasRuntime = .ok b) (es : List Event) : (b.run es).2.settings = settings := by
  obtain ⟨p, -, rfl⟩ := start_ok h
  exact run_keeps (P := fun c => c.settings = settings) (fun c e hc => (world_step c e).1.trans hc) rfl es

/-! ## The roster -/

structure Enrolled (b : Switchboard) : Prop where
  distinct : b.roster.Nodup
  listed : ∀ id, b.sessions.contains id = true → id ∈ b.roster
  numbered : ∀ id ∈ b.roster, id ≤ b.pool.opened

/-- Numbers are given out by opening a session alone. -/
theorem opened_step (b : Switchboard) {e : Event} (h : e ≠ .openSession) : (b.step e).2.pool.opened = b.pool.opened := by
  have hrun := congrArg (fun r => r.2.opened) (pool_step b e)
  refine hrun.symm.trans (Pool.opened_run fun pe hpe hopen => ?_)
  subst hopen
  cases e with
  | openSession => exact h rfl
  | signal sig =>
    obtain ⟨id, _, hid⟩ := List.mem_flatMap.mp hpe
    simp [poolOffers] at hid
  | signalTo id sig => simp [poolEvents, poolOffers] at hpe
  | drop id | close id => simp only [poolEvents] at hpe; split at hpe <;> simp at hpe
  | request | insert | erase | apply | work | drain | shutdown => simp [poolEvents] at hpe

theorem enrolled_fewer {b c : Switchboard} (h : Enrolled b) (hroster : c.roster = b.roster ∨ c.roster = b.present)
    (hheld : ∀ id, c.sessions.contains id = true → b.sessions.contains id = true)
    (hopened : c.pool.opened = b.pool.opened) : Enrolled c := by
  have hin : ∀ id ∈ c.roster, id ∈ b.roster := by
    intro id hid
    rcases hroster with hr | hr
    · rwa [hr] at hid
    · rw [hr] at hid
      exact (List.mem_filter.mp hid).1
  refine ⟨?_, fun id hid => ?_, fun id hid => ?_⟩
  · rcases hroster with hr | hr
    · rw [hr]; exact h.distinct
    · rw [hr]; exact h.distinct.filter _
  · have hb := hheld id hid
    rcases hroster with hr | hr
    · rw [hr]; exact h.listed id hb
    · rw [hr]; exact List.mem_filter.mpr ⟨h.listed id hb, hb⟩
  · rw [hopened]
    exact h.numbered id (hin id hid)

theorem enrolled_openSession {b : Switchboard} (h : Enrolled b) : Enrolled b.openSession.2 := by
  have hroster : b.openSession.2.roster = b.present ++ [b.pool.opened + 1] := rfl
  have hnew : b.pool.opened + 1 ∉ b.present := by
    intro hin
    have := h.numbered _ (List.mem_filter.mp hin).1
    omega
  refine ⟨?_, fun id hid => ?_, fun id hid => ?_⟩
  · rw [hroster, List.nodup_append]
    refine ⟨h.distinct.filter _, by simp, fun a ha c hc hac => ?_⟩
    rw [List.mem_singleton.mp hc] at hac
    exact hnew (hac ▸ ha)
  · rw [hroster, List.mem_append, List.mem_singleton]
    have hid' : (b.sessions.insert (b.pool.opened + 1) (.new b.settings)).contains id = true := hid
    rw [SortedMap.contains_insert] at hid'
    rcases hid' with hid' | hid'
    · exact .inr hid'.symm
    · exact .inl (List.mem_filter.mpr ⟨h.listed id hid', hid'⟩)
  · show id ≤ b.pool.opened + 1
    rw [hroster, List.mem_append, List.mem_singleton] at hid
    rcases hid with hid | hid
    · exact Nat.le_succ_of_le (h.numbered id (List.mem_filter.mp hid).1)
    · exact Nat.le_of_eq hid

/-- It is put in order, or left as it is. -/
theorem roster_step (b : Switchboard) {e : Event} (h : e ≠ .openSession) :
    (b.step e).2.roster = b.roster ∨ (b.step e).2.roster = b.present := by
  cases e with
  | openSession => contradiction
  | drop id => left; simp only [step]; split <;> rfl
  | request id r => left; simp only [step]; split <;> rfl
  | close id => left; simp only [step]; split <;> rfl
  | signal sig =>
    obtain ⟨p, n, h, heq⟩ := tellAll_frame sig b.prune b.present
    exact .inr (congrArg roster heq)
  | signalTo id sig =>
    left
    simp only [step]
    split
    · rfl
    · obtain ⟨p, n, h, heq⟩ := tell_frame b sig id
      show (b.tell sig id).2.roster = b.roster
      rw [heq]
  | shutdown =>
    obtain ⟨p, m, heq⟩ := closeAll_frame b.prune b.present
    exact .inr (congrArg roster heq)
  | insert r | erase id | apply ops | work w outcome | drain t => exact .inl rfl

theorem enrolled_step (b : Switchboard) (e : Event) (h : Enrolled b) : Enrolled (b.step e).2 := by
  by_cases hopen : e = .openSession
  · subst hopen
    exact enrolled_openSession h
  · exact enrolled_fewer h (roster_step b hopen) (fun id hid => held_before hopen hid) (opened_step b hopen)

theorem enrolled_start {settings : Settings} {hasRuntime : Bool} {b : Switchboard}
    (h : Switchboard.start settings hasRuntime = .ok b) : Enrolled b := by
  obtain ⟨p, -, rfl⟩ := start_ok h
  exact ⟨List.nodup_nil, fun id hid => by contradiction, fun id hid => by contradiction⟩

theorem enrolled_run {settings : Settings} {hasRuntime : Bool} {b : Switchboard}
    (h : Switchboard.start settings hasRuntime = .ok b) (es : List Event) : Enrolled (b.run es).2 :=
  run_keeps enrolled_step (enrolled_start h) es

/-! ## The sessions present -/

theorem mem_present_iff {b : Switchboard} (h : Enrolled b) (id : Nat) : id ∈ b.present ↔ b.sessions.contains id = true := by
  constructor
  · intro hid
    exact (List.mem_filter.mp hid).2
  · intro hid
    exact List.mem_filter.mpr ⟨h.listed id hid, hid⟩

/-- Every session that is held is told once of a signal. -/
theorem present_held {b : Switchboard} (h : Enrolled b) {id : Nat} (hid : b.sessions.contains id = true) :
    b.present.Nodup ∧ id ∈ b.present :=
  ⟨h.distinct.filter _, (mem_present_iff h id).mpr hid⟩

theorem get?_of_not_present {b : Switchboard} (hb : Enrolled b) {i : Nat} (hi : i ∉ b.present) :
    b.sessions.get? i = none := by
  rw [mem_present_iff hb, SortedMap.contains] at hi
  exact Option.not_isSome_iff_eq_none.mp hi

theorem sessionAfter_shutdown {b : Switchboard} (hb : Enrolled b) (i : Nat) :
    b.sessionAfter i .shutdown = (b.sessions.get? i).map Subscriptions.tearDown := by
  by_cases hi : i ∈ b.present
  · exact if_pos hi
  · have hnone := get?_of_not_present hb hi
    unfold sessionAfter
    rw [if_neg hi, hnone]
    rfl

theorem contains_step (b : Switchboard) {e : Event} (hopen : e ≠ .openSession) (hdrop : ∀ k, e ≠ .drop k) (id : Nat) :
    (b.step e).2.sessions.contains id = b.sessions.contains id := by
  rw [SortedMap.contains, get?_step]
  cases e with
  | openSession => contradiction
  | drop k => exact absurd rfl (hdrop k)
  | request k r | close k | shutdown =>
    simp only [sessionAfter]
    split
    · exact Option.isSome_map
    · rfl
  | insert | erase | apply | signal | signalTo | work | drain => rfl

/-- In order or not, the roster names the sessions that are left. -/
theorem present_step (b : Switchboard) {e : Event} (h : e ≠ .openSession) :
    (b.step e).2.present = b.present.filter (b.step e).2.sessions.contains := by
  show (b.step e).2.roster.filter (b.step e).2.sessions.contains = _
  rcases roster_step b h with hr | hr
  · rw [hr, present, List.filter_filter]
    refine List.filter_congr ?_
    intro id _
    -- who is still held was held before
    cases hid : (b.step e).2.sessions.contains id with
    | false => rfl
    | true => rw [held_before h hid]; rfl
  · rw [hr]

theorem present_openSession (b : Switchboard) : b.openSession.2.present = b.present ++ [b.pool.opened + 1] := by
  show (b.present ++ [b.pool.opened + 1]).filter b.openSession.2.sessions.contains = _
  refine List.filter_eq_self.mpr ?_
  intro id hid
  refine (SortedMap.contains_insert _ _ _ _).mpr ?_
  rcases List.mem_append.mp hid with hid | hid
  · exact .inr (List.mem_filter.mp hid).2
  · exact .inl (List.mem_singleton.mp hid).symm

/-! ## Jobs by session -/

theorem jobsOf_own (id : Nat) (batches : List Batch) : jobsOf id (batches.map (⟨id, ·⟩)) = batches.map (⟨id, ·⟩) := by
  refine List.filter_eq_self.mpr fun j hj => ?_
  obtain ⟨batch, -, rfl⟩ := List.mem_map.mp hj
  exact decide_eq_true rfl

theorem jobsOf_other {k id : Nat} (h : k ≠ id) (batches : List Batch) : jobsOf id (batches.map (⟨k, ·⟩)) = [] := by
  refine jobsOf_eq_nil fun j hj => ?_
  obtain ⟨batch, -, rfl⟩ := List.mem_map.mp hj
  exact h

theorem jobsOf_others {id : Nat} {ids : List Nat} (h : id ∉ ids) (f : Nat → List Batch) :
    jobsOf id (ids.flatMap fun k => (f k).map (⟨k, ·⟩)) = [] := by
  refine jobsOf_eq_nil fun j hj hid => ?_
  obtain ⟨k, hk, hjk⟩ := List.mem_flatMap.mp hj
  obtain ⟨batch, -, rfl⟩ := List.mem_map.mp hjk
  exact h (hid ▸ hk)

/-- Each session of a list without repetition has its own jobs in the list's. -/
theorem jobsOf_flatMap {id : Nat} {ids : List Nat} (hn : ids.Nodup) (h : id ∈ ids) (f : Nat → List Batch) :
    jobsOf id (ids.flatMap fun k => (f k).map (⟨k, ·⟩)) = (f id).map (⟨id, ·⟩) := by
  induction ids with
  | nil => contradiction
  | cons k ids ih =>
    obtain ⟨hk, hrest⟩ := List.nodup_cons.mp hn
    rw [List.flatMap_cons, jobsOf_append]
    by_cases hid : id = k
    · subst hid
      rw [jobsOf_own, jobsOf_others hk, List.append_nil]
    · have hin : id ∈ ids := (List.mem_cons.mp h).resolve_left hid
      rw [jobsOf_other (Ne.symm hid), List.nil_append]
      exact ih hrest hin

end LedgerWatch.Switchboard
