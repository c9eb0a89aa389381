/-
  LedgerWatch.Proofs.Switchboard.Interest — no session misses what it has asked for.

  Along a run `armedSince` keeps the objects one session has asked for since its last
  accepted subscription. `armed_run`: while the session has a callback, each of them is
  watched, whatever happened in between to it, to the others, to the ledger or to the
  pool. So a signal of changes hands the pool one batch of updates for the session, with
  everything in it that the session asked for (`no_interest_missed`).
-/

import LedgerWatch.Proofs.Session.Armed
import LedgerWatch.Proofs.Session.Updates
import LedgerWatch.Proofs.Switchboard.Sessions

namespace LedgerWatch.Switchboard

open Subscriptions

/-! ## What a session has asked for -/

def armedStep (id : Nat) (b : Switchboard) (ids : List ObjectId) : Event → List ObjectId
  | .request k r =>
    match b.sessions.get? id with
    | some s => if k = id then s.armedBy b.ledger ids r else ids
    | none => ids
  | _ => ids

/-- The objects a session has asked for since its last accepted subscription, after a run. -/
def armedSince (id : Nat) (b : Switchboard) (ids : List ObjectId) : List Event → List ObjectId
  | [] => ids
  | e :: es => armedSince id (b.step e).2 (armedStep id b ids e) es

/-- With a callback, the session watches all it has asked for. -/
def Armed (id : Nat) (b : Switchboard) (ids : List ObjectId) : Prop :=
  ∀ s, b.sessions.get? id = some s → s.WatchesAll ids

theorem armedStep_other {id : Nat} {b : Switchboard} {e : Event} (h : ∀ r, e ≠ .request id r) (ids : List ObjectId) :
    armedStep id b ids e = ids := by
  cases e with
  | request k r =>
    have hk : k ≠ id := fun hk => h r (hk ▸ rfl)
    simp only [armedStep, if_neg hk]
    split <;> rfl
  | openSession | drop k | close k | insert r | erase k | apply ops | signal sig | signalTo k sig | work w outcome
  | drain t | shutdown => rfl

theorem armed_step {id : Nat} {b : Switchboard} {ids : List ObjectId} (h : Armed id b ids) (e : Event) :
    Armed id (b.step e).2 (armedStep id b ids e) := by
  intro s' hs'
  rcases session_cases hs' with ⟨hs, hother⟩ | ⟨-, rfl⟩ | ⟨s, hs, ⟨r, rfl, rfl⟩ | rfl⟩
  · rw [armedStep_other hother]
    exact h s' hs
  · -- no callback yet
    intro hsub
    contradiction
  · simp only [armedStep, hs, if_true]
    exact watchesAll_serve (h s hs) b.ledger r
  · -- no callback any more
    intro hsub
    contradiction

theorem armed_run {id : Nat} {b : Switchboard} {ids : List ObjectId} (h : Armed id b ids) (es : List Event) :
    Armed id (b.run es).2 (armedSince id b ids es) := by
  induction es generalizing b ids with
  | nil => exact h
  | cons e es ih => exact ih (armed_step h e)

theorem armed_nil (id : Nat) (b : Switchboard) : Armed id b [] :=
  fun _ _ _ _ hx => by contradiction

/-! ## What it is told -/

/-- The updates among the jobs of a session. -/
def updatesOf (id : Nat) (offers : List Offer) : List Job :=
  (jobsOf id (offers.map (·.job))).filter fun j => isUpdate j.batch

theorem updates_own (id : Nat) (batches : List Batch) :
    (batches.map (⟨id, ·⟩)).filter (fun j : Job => isUpdate j.batch) = (batches.filter isUpdate).map (⟨id, ·⟩) :=
  List.filter_map

theorem updatesOf_tell {b : Switchboard} {id : Nat} {s : Subscriptions} (hs : b.sessions.get? id = some s)
    (sig : Signal) :
    updatesOf id (b.tell sig id).1 = ((s.notices b.ledger sig).batches.filter isUpdate).map (⟨id, ·⟩) := by
  rw [updatesOf, jobs_tell, jobsOf_own, updates_own]
  simp only [batchesFor, hs]

theorem updatesOf_signal {b : Switchboard} (hb : Enrolled b) {id : Nat} {s : Subscriptions}
    (hs : b.sessions.get? id = some s) (sig : Signal) :
    updatesOf id (b.signal sig).1 = ((s.notices b.ledger sig).batches.filter isUpdate).map (⟨id, ·⟩) := by
  have hheld : b.sessions.contains id = true := by rw [SortedMap.contains, hs]; rfl
  obtain ⟨hn, hin⟩ := present_held hb hheld
  rw [updatesOf, jobs_signal, jobsOf_flatMap hn hin, updates_own]
  simp only [batchesFor, hs]

/-- A signal, to all sessions or to this one, offers exactly one batch of updates, under the callback and with
all of `items` in it, unless there is nothing at all to tell. -/
def Told (b : Switchboard) (id : Nat) (u : UpdateSubscription) (sig : Signal) (items : List Json) : Prop :=
  ∃ told, items.Sublist told ∧ ∀ offers ∈ [(b.signal sig).1, (b.tell sig id).1],
    updatesOf id offers = [⟨id, .updates, u.callback, .arr told⟩] ∨ told = [] ∧ updatesOf id offers = []

theorem told_of_change {b : Switchboard} (hb : Enrolled b) {id : Nat} {s : Subscriptions} {u : UpdateSubscription}
    (hs : b.sessions.get? id = some s) (hu : s.update = some u) {sig : Signal} {c : Change}
    (hc : s.notices b.ledger sig = s.changeNotices c) {p : ObjectId → Bool}
    (hp : ∀ x, p x = true → s.isOfInterest c x = true) : Told b id u sig ((c.ids.filter p).filterMap (told? c)) := by
  refine ⟨s.tellable c, tellable_sublist hp, fun offers ho => ?_⟩
  have hoffers : updatesOf id offers = (updateBatch u.callback (s.tellable c)).map (⟨id, ·⟩) := by
    have hbatches : (s.notices b.ledger sig).batches.filter isUpdate = updateBatch u.callback (s.tellable c) := by
      rw [hc, updates_of_change, updatesFor, hu]
    rw [← hbatches]
    simp only [List.mem_cons, List.not_mem_nil, or_false] at ho
    rcases ho with rfl | rfl
    · exact updatesOf_signal hb hs sig
    · exact updatesOf_tell hs sig
  rw [hoffers, updateBatch]
  cases htold : s.tellable c with
  | nil => exact .inr ⟨rfl, rfl⟩
  | cons item items => exact .inl rfl

/-- A forced set of changes is told as a whole. -/
theorem told_of_forced {b : Switchboard} (hb : Enrolled b) {id : Nat} {s : Subscriptions} {u : UpdateSubscription}
    (hs : b.sessions.get? id = some s) (hu : s.update = some u) {sig : Signal} {c : Change}
    (hc : s.notices b.ledger sig = s.changeNotices c) (hforce : c.force = true) :
    Told b id u sig (c.ids.filterMap (told? c)) := by
  have hall : ∀ x, true = true → s.isOfInterest c x = true := fun x _ => by rw [isOfInterest, hforce]; rfl
  have htold := told_of_change hb hs hu hc hall
  rwa [List.filter_eq_self.mpr fun _ _ => rfl] at htold

section Run

variable {settings : Settings} {hasRuntime : Bool} {b : Switchboard}

/-- What a session is sure to be told of: the objects it has asked for since its last accepted subscription, and
all of them if an account it follows is impacted. -/
def wanted (b : Switchboard) (es : List Event) (id : Nat) (s : Subscriptions) (impacted : SortedSet AccountId)
    (x : ObjectId) : Bool :=
  (armedSince id b [] es).contains x || impacted.keys.any s.followed.contains

theorem isOfInterest_of_wanted {es : List Event} {id : Nat} {s : Subscriptions}
    (hs : (b.run es).2.sessions.get? id = some s) (hsub : s.isSubscribed = true) (c : Change) {x : ObjectId}
    (hx : wanted b es id s c.impacted x = true) : s.isOfInterest c x = true := by
  rw [wanted, Bool.or_eq_true] at hx
  rw [isOfInterest, Bool.or_eq_true, Bool.or_eq_true]
  rcases hx with hx | hx
  · right
    exact armed_run (armed_nil id b) es s hs hsub x (List.contains_iff_mem.mp hx)
  · left; right
    obtain ⟨a, ha, hf⟩ := List.any_eq_true.mp hx
    exact (meets_iff s c.impacted).mpr ⟨a, (SortedMap.contains_iff_mem_keys _ _).mpr ha, hf⟩

/-- A session with a callback is told, by one batch for each signal, of every change it has asked for: of what is
created or changed as it is in the ledger then, of what is removed by its id. -/
theorem no_interest_missed (h : Switchboard.start settings hasRuntime = .ok b) (es : List Event) {id : Nat}
    {s : Subscriptions} (hs : (b.run es).2.sessions.get? id = some s) {u : UpdateSubscription}
    (hu : s.update = some u) (ids : List ObjectId) (impacted : SortedSet AccountId) (removed : List Record) :
    let c := (b.run es).2
    let items := (ids.filter (wanted b es id s impacted)).filterMap fun x => (c.ledger.find? x).map toJson
    Told c id u (.created ids impacted) items ∧ Told c id u (.changed ids impacted) items ∧
      Told c id u (.removed ids removed impacted) ((ids.filter (wanted b es id s impacted)).map fun x => .str x.text) ∧
      (s.notifyAll = true → Told c id u (.created ids impacted) (ids.filterMap fun x => (c.ledger.find? x).map toJson) ∧
        Told c id u (.removed ids removed impacted) (ids.map fun x => .str x.text)) := by
  intro c items
  have hc : Enrolled c := enrolled_run h es
  have hsub : s.isSubscribed = true := by rw [isSubscribed, hu]; rfl
  have hwanted : ∀ k : Change, k.impacted = impacted → ∀ x, wanted b es id s impacted x = true →
      s.isOfInterest k x = true := fun k hk x hx => isOfInterest_of_wanted hs hsub k (hk.symm ▸ hx)
  have hbare : told? ⟨s.notifyAll, ids, impacted, lastWithId removed, false⟩ = some ∘ fun x => .str x.text := rfl
  refine ⟨?_, ?_, ?_, fun hall => ⟨?_, ?_⟩⟩
  · exact told_of_change hc hs hu rfl (hwanted ⟨_, ids, impacted, _, true⟩ rfl)
  · exact told_of_change hc hs hu rfl (hwanted ⟨_, ids, impacted, _, true⟩ rfl)
  · rw [← List.filterMap_eq_map, ← hbare]
    exact told_of_change hc hs hu rfl (hwanted ⟨_, ids, impacted, _, false⟩ rfl)
  · have hforce : (⟨s.notifyAll, ids, impacted, c.ledger.find?, true⟩ : Change).force = true := hall
    exact told_of_forced hc hs hu rfl hforce
  · rw [← List.filterMap_eq_map, ← hbare]
    exact told_of_forced hc hs hu rfl hall

end Run

def alice : Account := ⟨Kind.account.id 5, "alice", ⟨0⟩, [], []⟩

/-- An account is asked for by its id, and the callback outlives a subscription that is refused. -/
def oneSubscriber : List Event :=
  [.insert (.account alice), .openSession, .request 1 (.subscribe ⟨"a", none⟩ false),
    .request 1 (.getAccounts [alice.accountId]), .request 1 (.subscribe ⟨"b", none⟩ true)]

theorem no_interest_missed_of_one :
    ∃ b s u, Switchboard.start .standard true = .ok b ∧ (b.run oneSubscriber).2.sessions.get? 1 = some s ∧
      s.update = some u ∧ u.callback = ⟨"a", none⟩ ∧
      Told (b.run oneSubscriber).2 1 u (.changed [alice.id] .empty) [toJson (Record.account alice)] := by
  refine ⟨_, _, _, rfl, rfl, rfl, rfl, ?_⟩
  exact (@no_interest_missed .standard true _ rfl oneSubscriber 1 _ rfl _ rfl [alice.id] .empty []).2.1

end LedgerWatch.Switchboard
