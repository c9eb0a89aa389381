/-
  LedgerWatch.Proofs.Switchboard.Markets — what the orders of a signal come to.

  The sessions of a run are what some actions made of new ones (`reached_step`), so the
  markets they ask for are of two different assets each (`canonical_run`).

  Such a session is handed, after its batch of updates, one batch for each market it asks
  for in which any order of the signal stands, in the order of the markets, and no others
  (`markets_exact`). What is created or changed is looked up in the ledger, what is
  removed among the last states alone; of several of these with one id the last counts.
  Orders that come to none are counted. Which way round a price is written is not to be
  noticed but in the order itself.
-/

import LedgerWatch.Proofs.Session.Swapped
import LedgerWatch.Proofs.Session.Turns
import LedgerWatch.Proofs.Switchboard.Payloads
import LedgerWatch.Proofs.Switchboard.Updates
import LedgerWatch.Proofs.Subscriptions.Markets

namespace LedgerWatch.Switchboard

open Subscriptions

/-! ## The sessions of a run -/

/-- Every session is what some actions made of a new one. -/
def Reached (b : Switchboard) : Prop :=
  ∀ id s, b.sessions.get? id = some s → ∃ acts, s = (new b.settings).after acts

theorem reached_step (b : Switchboard) (e : Event) (h : Reached b) : Reached (b.step e).2 := by
  intro id s' hs'
  rw [(world_step b e).1]
  rcases session_cases hs' with ⟨hs, -⟩ | ⟨-, rfl⟩ | ⟨s, hs, ⟨r, -, rfl⟩ | rfl⟩
  · exact h id s' hs
  · exact ⟨[], rfl⟩
  · obtain ⟨acts, rfl⟩ := h id s hs
    refine ⟨acts ++ ((new b.settings).after acts).actions b.ledger r, ?_⟩
    rw [serve_eq_after, after_append]
  · obtain ⟨acts, rfl⟩ := h id s hs
    refine ⟨acts ++ [.tearDown], ?_⟩
    rw [after_snoc]
    rfl

theorem reached_start {settings : Settings} {hasRuntime : Bool} {b : Switchboard}
    (h : Switchboard.start settings hasRuntime = .ok b) : Reached b := by
  obtain ⟨p, -, rfl⟩ := start_ok h
  intro id s hs
  contradiction

theorem reached_run {settings : Settings} {hasRuntime : Bool} {b : Switchboard}
    (h : Switchboard.start settings hasRuntime = .ok b) (es : List Event) : Reached (b.run es).2 :=
  run_keeps reached_step (reached_start h) es

theorem settings_of_reached {b : Switchboard} (h : Reached b) {id : Nat} {s : Subscriptions}
    (hs : b.sessions.get? id = some s) : s.settings = b.settings := by
  obtain ⟨acts, rfl⟩ := h id s hs
  exact settings_after _ _

/-- In every run a market is asked for as two different assets. -/
theorem canonical_run {settings : Settings} {hasRuntime : Bool} {b : Switchboard}
    (h : Switchboard.start settings hasRuntime = .ok b) (es : List Event) {id : Nat} {s : Subscriptions}
    (hs : (b.run es).2.sessions.get? id = some s) : Canonical s := by
  obtain ⟨acts, rfl⟩ := reached_run h es id s hs
  exact canonical_after _ acts

/-! ## What it is told of markets -/

/-- The market batches among the jobs of a session. -/
def marketsOf (id : Nat) (offers : List Offer) : List Job :=
  (jobsOf id (offers.map (·.job))).filter fun j => j.batch.stream = .market

theorem marketsOf_tell {b : Switchboard} {id : Nat} {s : Subscriptions} (hs : b.sessions.get? id = some s) {sig : Signal}
    {first markets : List Batch} (h : (s.notices b.ledger sig).batches = first ++ markets)
    (hfirst : ∀ x ∈ first, x.stream ≠ .market) (hmarkets : ∀ x ∈ markets, x.stream = .market) :
    marketsOf id (b.tell sig id).1 = markets.map (⟨id, ·⟩) := by
  have hnone : first.filter (fun x => x.stream = .market) = [] :=
    List.filter_eq_nil_iff.mpr fun x hx => by simpa using hfirst x hx
  have hall : markets.filter (fun x => x.stream = .market) = markets :=
    List.filter_eq_self.mpr fun x hx => decide_eq_true (hmarkets x hx)
  have hbatches : b.batchesFor sig id = first ++ markets := by
    simp only [batchesFor, hs, h]
  have hown : (first ++ markets).filter (fun x => x.stream = .market) = markets := by
    rw [List.filter_append, hnone, hall, List.nil_append]
  rw [marketsOf, jobs_tell, jobsOf_own, hbatches, List.filter_map]
  exact congrArg (List.map fun x => (⟨id, x⟩ : Job)) hown

/-- A signal hands over to a session, after its updates, one batch for each market it asks for with an order in it;
the ids of interest that are missing and the orders that go astray are counted. -/
structure FansOut (b : Switchboard) (id : Nat) (s : Subscriptions) (sig : Signal) (resolve : ObjectId → Option Record)
    (ids : List ObjectId) (write : ObjectId × Record → Json) (missing : Nat) : Prop where
  offered : (b.tell sig id).1.map (·.job) = updatesOf id (b.tell sig id).1 ++ marketsOf id (b.tell sig id).1
  batches : marketsOf id (b.tell sig id).1 =
    (s.oneEach (ordersIn resolve ids) fun orders => .arr (orders.map write)).map (⟨id, ·⟩)
  anomalies : (b.tell sig id).2.anomalies = b.anomalies + missing + s.strays resolve ids

theorem fansOut_of_change {b : Switchboard} {id : Nat} {s : Subscriptions} (hs : b.sessions.get? id = some s)
    {sig : Signal} {c : Change} (hc : s.notices b.ledger sig = s.changeNotices c) :
    FansOut b id s sig c.resolve c.ids (orderItem c.whole)
      (s.unresolved (told? c) (s.interesting c.force c.impacted c.ids)) := by
  have hbatches := changeNotices_batches s c
  have hmarkets := marketsOf_tell hs (hc ▸ hbatches) (fun x hx => by rw [(mem_updatesFor hx).1]; nofun)
    fun x hx => (mem_oneEach hx).1
  refine ⟨?_, hmarkets, anomalies_tell hs hc⟩
  rw [jobs_tell, hmarkets, updatesOf_tell hs, hc, updates_of_change, ← List.map_append, ← hbatches]
  simp only [batchesFor, hs, hc]

section

variable {d : Switchboard} {id : Nat} {s : Subscriptions} (hs : d.sessions.get? id = some s) (ids : List ObjectId)
  (impacted : SortedSet AccountId)

include hs

/-- What is created or changed is told as the ledger has it. -/
theorem fansOut_live {sig : Signal} {force : Bool}
    (hc : s.notices d.ledger sig = s.changeNotices ⟨force, ids, impacted, d.ledger.find?, true⟩) :
    FansOut d id s sig d.ledger.find? ids (fun e => toJson e.2)
      (s.unresolved d.ledger.find? (s.interesting force impacted ids)) := by
  have hfans := fansOut_of_change hs hc
  rwa [unresolved_whole s rfl] at hfans

/-- What is removed is told by its id, and the ledger is not asked. -/
theorem fansOut_removed (removed : List Record) :
    FansOut d id s (.removed ids removed impacted) (lastWithId removed) ids (fun e => .str e.1.text) 0 := by
  have hfans : FansOut d id s (.removed ids removed impacted) _ _ _ _ :=
    fansOut_of_change (c := ⟨s.notifyAll, ids, impacted, lastWithId removed, false⟩) hs rfl
  rwa [unresolved_bare s rfl] at hfans

end

/-! ## Prices the other way round -/

/-- Two calls of one callback with the same objects, but that prices of orders may be the other way round. -/
def SameUpToPrices (j j' : Job) : Prop :=
  ∃ rs rs', List.Forall₂ Record.SwappedOrSame rs rs' ∧ j.batch.payload = toJson rs ∧
    j' = { j with batch := { j.batch with payload := toJson rs' } }

theorem oneEach_swapped_whole (s : Subscriptions) {resolve resolve' : ObjectId → Option Record}
    (h : ∀ x, Option.Rel Record.SwappedOrSame (resolve x) (resolve' x)) (ids : List ObjectId) (id : Nat) :
    List.Forall₂ SameUpToPrices
      ((s.oneEach (ordersIn resolve ids) fun orders => .arr (orders.map fun e => toJson e.2)).map (⟨id, ·⟩))
      ((s.oneEach (ordersIn resolve' ids) fun orders => .arr (orders.map fun e => toJson e.2)).map (⟨id, ·⟩)) := by
  rw [List.forall₂_map_left_iff, List.forall₂_map_right_iff]
  refine oneEach_related (ordersIn_swapped h ids) ?_
  intro callback orders orders' horders
  refine ⟨orders.map (·.2), orders'.map (·.2), ?_, ?_, ?_⟩
  · rw [List.forall₂_map_left_iff, List.forall₂_map_right_iff]
    exact horders.imp fun _ _ he => he.2
  · show Json.arr _ = Json.arr ((orders.map (·.2)).map toJson)
    rw [List.map_map]
    rfl
  · show Job.mk _ ⟨_, _, Json.arr _⟩ = Job.mk _ ⟨_, _, Json.arr ((orders'.map (·.2)).map toJson)⟩
    rw [List.map_map]
    rfl

theorem oneEach_swapped_bare (s : Subscriptions) {resolve resolve' : ObjectId → Option Record}
    (h : ∀ x, Option.Rel Record.SwappedOrSame (resolve x) (resolve' x)) (ids : List ObjectId) :
    s.oneEach (ordersIn resolve ids) (fun orders => .arr (orders.map fun e => .str e.1.text)) =
      s.oneEach (ordersIn resolve' ids) fun orders => .arr (orders.map fun e => .str e.1.text) := by
  rw [← List.forall₂_eq_eq_eq]
  refine oneEach_related (ordersIn_swapped h ids) ?_
  intro callback orders orders' horders
  have hids : orders.map (fun e => Json.str e.1.text) = orders'.map fun e => Json.str e.1.text := by
    rw [← List.forall₂_eq_eq_eq, List.forall₂_map_left_iff, List.forall₂_map_right_iff]
    refine horders.imp ?_
    intro e e' he
    rw [he.1]
  rw [hids]

/-! ## Exactly the orders of a signal -/

/-- What a session of any run is told of the orders in its markets is exactly this: created and changed ones as records
of the ledger, removed ones as the ids that had a last state, under the callbacks of pairs of two different assets
and in the order of these. Prices may be the other way round. -/
theorem markets_exact {settings : Settings} {hasRuntime : Bool} {b : Switchboard}
    (h : Switchboard.start settings hasRuntime = .ok b) (es : List Event) {id : Nat} {s : Subscriptions}
    (hs : (b.run es).2.sessions.get? id = some s) (ids : List ObjectId) (impacted : SortedSet AccountId)
    (removed : List Record) :
    let c := (b.run es).2
    let created := Signal.created ids impacted
    let changed := Signal.changed ids impacted
    FansOut c id s created c.ledger.find? ids (fun e => toJson e.2)
        (s.unresolved c.ledger.find? (s.interesting s.notifyAll impacted ids)) ∧
      FansOut c id s changed c.ledger.find? ids (fun e => toJson e.2)
        (s.unresolved c.ledger.find? (s.interesting false impacted ids)) ∧
      FansOut c id s (.removed ids removed impacted) (lastWithId removed) ids (fun e => .str e.1.text) 0 ∧
      s.markets.keys.Pairwise Market.Precedes ∧
      (∀ m callback, s.marketCallback? m = some callback → m.base.number < m.quote.number) ∧
      (∀ a, s.marketCallback? (.of a a) = none) ∧
      ∀ l' removed', (∀ x, Option.Rel Record.SwappedOrSame (c.ledger.find? x) (l'.find? x)) →
        List.Forall₂ Record.SwappedOrSame removed removed' →
        let c' := { c with ledger := l' }
        List.Forall₂ SameUpToPrices (marketsOf id (c.tell created id).1) (marketsOf id (c'.tell created id).1) ∧
          List.Forall₂ SameUpToPrices (marketsOf id (c.tell changed id).1) (marketsOf id (c'.tell changed id).1) ∧
          marketsOf id (c.tell (.removed ids removed impacted) id).1 =
            marketsOf id (c'.tell (.removed ids removed' impacted) id).1 := by
  intro c created changed
  have hcanonical : Canonical s := canonical_run h es hs
  refine ⟨fansOut_live hs ids impacted rfl, fansOut_live hs ids impacted rfl, fansOut_removed hs ids impacted removed,
    increasing_markets s.markets, fun m callback => hcanonical.ordered, hcanonical.no_callback_of_same, ?_⟩
  intro l' removed' hledger hlast c'
  have hs' : c'.sessions.get? id = some s := hs
  refine ⟨?_, ?_, ?_⟩
  · rw [(fansOut_live hs ids impacted rfl).batches, (fansOut_live hs' ids impacted rfl).batches]
    exact oneEach_swapped_whole s hledger ids id
  · rw [(fansOut_live hs ids impacted rfl).batches, (fansOut_live hs' ids impacted rfl).batches]
    exact oneEach_swapped_whole s hledger ids id
  · rw [(fansOut_removed hs ids impacted removed).batches, (fansOut_removed hs' ids impacted removed').batches,
      oneEach_swapped_bare s (lastWithId_swapped hlast) ids]

/-- A call order in the market of the offer, its price written the other way round. -/
def loan : CallOrder := ⟨Kind.callOrder.id 8, ⟨6⟩, 50, 20, ⟨⟨20, ⟨2⟩⟩, ⟨10, ⟨1⟩⟩⟩⟩

/-- Their market is asked for the other way round. -/
def trader : List Event :=
  [.insert (.limitOrder offerToSell), .insert (.callOrder loan), .openSession,
    .request 1 (.subscribeMarket ⟨"a", none⟩ ⟨2⟩ ⟨1⟩)]

/-- The same orders stand in the ledger with their prices the other way round. -/
def turnedLedger : Ledger :=
  (Ledger.empty.insert (Record.limitOrder offerToSell).swapped).insert (Record.callOrder loan).swapped

/-- Two states of each: the offer ends in this market after it was in another one, the loan the other way round. -/
def lastStates : List Record :=
  let elsewhere : Price := ⟨⟨10, ⟨1⟩⟩, ⟨20, ⟨3⟩⟩⟩
  [.limitOrder { offerToSell with sellPrice := elsewhere }, .callOrder loan, .limitOrder offerToSell,
    .callOrder { loan with callPrice := elsewhere }]

/-- An offer named twice is told twice, a loan once; one that is lost is counted. Of those that are removed the last
states alone say which stood in the market. -/
theorem markets_exact_of_repeated :
    ∃ b s, Switchboard.start .standard true = .ok b ∧ (b.run trader).2.sessions.get? 1 = some s ∧
      let c := (b.run trader).2
      let offer := Record.limitOrder offerToSell
      let owed := Record.callOrder loan
      let ids := [offer.id, lost, owed.id, offer.id]
      let removed := Signal.removed ids lastStates .empty
      marketsOf 1 (c.tell (.changed ids .empty) 1).1 =
          [⟨1, .market, ⟨"a", none⟩, .arr [toJson offer, toJson owed, toJson offer]⟩] ∧
        (c.tell (.changed ids .empty) 1).2.anomalies = 1 ∧
        marketsOf 1 (c.tell removed 1).1 = [⟨1, .market, ⟨"a", none⟩, .arr [.str offer.id.text, .str offer.id.text]⟩] ∧
        (c.tell removed 1).2.anomalies = 1 ∧
        (∀ x, Option.Rel Record.SwappedOrSame (c.ledger.find? x) (turnedLedger.find? x)) ∧
        List.Forall₂ Record.SwappedOrSame lastStates (lastStates.map Record.swapped) ∧
        List.Forall₂ SameUpToPrices (marketsOf 1 (c.tell (.changed ids .empty) 1).1)
          (marketsOf 1 ({ c with ledger := turnedLedger }.tell (.changed ids .empty) 1).1) ∧
        marketsOf 1 (c.tell removed 1).1 =
          marketsOf 1 ({ c with ledger := turnedLedger }.tell
            (.removed ids (lastStates.map Record.swapped) .empty) 1).1 := by
  refine ⟨_, _, rfl, rfl, ?_⟩
  intro c offer owed ids removed
  obtain ⟨-, hchanged, hremoved, -, -, -, hswapped⟩ :=
    @markets_exact .standard true _ rfl trader 1 _ rfl ids .empty lastStates
  have hasked : ∀ s, c.sessions.get? 1 = some s → s.markets.entries = [(.of ⟨2⟩ ⟨1⟩, ⟨"a", none⟩)] := by
    intro s hs
    cases hs
    rfl
  have hheld : ordersIn c.ledger.find? ids (.of ⟨2⟩ ⟨1⟩) =
      [(offer.id, offer), (owed.id, owed), (offer.id, offer)] := by decide +kernel
  have hgone : ordersIn (lastWithId lastStates) ids (.of ⟨2⟩ ⟨1⟩) = [(offer.id, offer), (offer.id, offer)] := by
    decide +kernel
  have hturned : ∀ x, Option.Rel Record.SwappedOrSame (c.ledger.find? x) (turnedLedger.find? x) :=
    find?_insert_swapped (find?_insert_swapped (fun _ => .none) offer) owed
  have hlast : List.Forall₂ Record.SwappedOrSame lastStates (lastStates.map Record.swapped) := by
    rw [List.forall₂_map_right_iff, List.forall₂_same]
    intro r _
    exact .inr rfl
  obtain ⟨-, hsame, hsameIds⟩ := hswapped turnedLedger (lastStates.map Record.swapped) hturned hlast
  refine ⟨?_, ?_, ?_, ?_, hturned, hlast, hsame, hsameIds⟩
  · rw [hchanged.batches, oneEach_single (hasked _ rfl) (by rw [hheld]; nofun), hheld]
    rfl
  · rw [hchanged.anomalies]
    decide +kernel
  · rw [hremoved.batches, oneEach_single (hasked _ rfl) (by rw [hgone]; nofun), hgone]
    rfl
  · rw [hremoved.anomalies]
    decide +kernel

end LedgerWatch.Switchboard
