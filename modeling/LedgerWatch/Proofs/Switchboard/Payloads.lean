/-
  LedgerWatch.Proofs.Switchboard.Payloads — what subscribers are called with reads back.

  Every call of a run goes back to a signal: the batch is one the signal came to for that
  session, as the session and the ledger stood then (`called_of_run`). If the signal tells
  records whole, the batch is a list of them, and each stood in the ledger under an id the
  signal named.

  - `decoding_undoes_encoding`: values of all types read back from their documents, a
    record as the sort it is, and so do the records in the calls of every run.
-/

import LedgerWatch.Proofs.Session.Markets
import LedgerWatch.Proofs.Switchboard.Order
import LedgerWatch.Proofs.Wire.Lossless
import LedgerWatch.Proofs.Wire.Record

namespace LedgerWatch.Switchboard

/-- The signal an event gives, to all or to one. -/
def signal? : Event → Option Signal
  | .signal sig | .signalTo _ sig => some sig
  | .openSession | .drop _ | .request _ _ | .close _ | .insert _ | .erase _ | .apply _ | .work _ _ | .drain _
  | .shutdown => none

theorem mem_accepted {offers : List Offer} {j : Job} (h : j ∈ (Log.ofOffers offers).accepted) :
    j ∈ offers.map (·.job) := by
  obtain ⟨offer, hoffer, rfl⟩ := List.mem_map.mp h
  exact List.mem_map.mpr ⟨offer, (List.mem_filter.mp hoffer).1, rfl⟩

/-- What is taken on in a step is a batch its signal came to. -/
theorem accepted_of_step {b : Switchboard} {e : Event} {j : Job} (h : j ∈ (Log.ofOut (b.step e).1).accepted) :
    ∃ sig, signal? e = some sig ∧ j.batch ∈ b.batchesFor sig j.session := by
  cases e with
  | signal sig =>
    refine ⟨sig, rfl, ?_⟩
    have hjob : j ∈ (b.signal sig).1.map (·.job) := mem_accepted h
    rw [jobs_signal] at hjob
    obtain ⟨id, _, hid⟩ := List.mem_flatMap.mp hjob
    obtain ⟨batch, hbatch, rfl⟩ := List.mem_map.mp hid
    exact hbatch
  | signalTo id sig =>
    refine ⟨sig, rfl, ?_⟩
    simp only [step] at h
    split at h
    · contradiction
    · have hjob := mem_accepted h
      rw [jobs_tell] at hjob
      obtain ⟨batch, hbatch, rfl⟩ := List.mem_map.mp hjob
      exact hbatch
  | drop id | request id r | close id =>
    simp only [step] at h
    split at h <;> contradiction
  | openSession | insert r | erase id | apply ops | work w outcome | drain t | shutdown => contradiction

theorem accepted_of_run {b : Switchboard} {es : List Event} {j : Job}
    (h : j ∈ (Log.ofOuts (b.run es).1).accepted) :
    ∃ before e after sig, es = before ++ e :: after ∧ signal? e = some sig ∧
      j.batch ∈ (b.run before).2.batchesFor sig j.session := by
  induction es generalizing b with
  | nil => contradiction
  | cons e es ih =>
    rcases List.mem_append.mp h with hfirst | hlater
    · obtain ⟨sig, hsig, hbatch⟩ := accepted_of_step hfirst
      exact ⟨[], e, es, sig, rfl, hsig, hbatch⟩
    · obtain ⟨before, e', after, sig, rfl, hsig, hbatch⟩ := ih hlater
      exact ⟨e :: before, e', after, sig, rfl, hsig, hbatch⟩

/-- A call goes back to a signal. -/
theorem called_of_run {settings : Settings} {hasRuntime : Bool} {b : Switchboard}
    (h : Switchboard.start settings hasRuntime = .ok b) {es : List Event} {j : Job}
    (hj : j ∈ (Log.ofOuts (b.run es).1).called) :
    ∃ before e after sig, es = before ++ e :: after ∧ signal? e = some sig ∧
      j.batch ∈ (b.run before).2.batchesFor sig j.session := by
  have hbooks := books_run (books_start h) es
  have hown : j ∈ jobsOf j.session (Log.ofOuts (b.run es).1).called := List.mem_filter.mpr ⟨hj, by simp⟩
  have htaken : j ∈ jobsOf j.session (Log.ofOuts (b.run es).1).accepted := by
    rw [hbooks.inOrder]
    exact List.mem_append_left _ hown
  exact accepted_of_run (List.mem_filter.mp htaken).1

/-! ## Records in batches -/

/-- The batch is a list of records that the ledger has under ids of a list, and they read back from it. -/
def HoldsRecords (l : Ledger) (ids : List ObjectId) (b : Batch) : Prop :=
  ∃ rs : List Record, b.payload = .arr (rs.map toJson) ∧ Decodes b.payload rs ∧
    ∀ r ∈ rs, Decodes (toJson r) r ∧ ∃ id ∈ ids, l.find? id = some r

theorem holdsRecords_of_whole {s : Subscriptions} {c : Change} (hc : c.whole = true) {l : Ledger}
    (hl : c.resolve = l.find?) {b : Batch} (hb : b ∈ (s.changeNotices c).batches) : HoldsRecords l c.ids b := by
  have hrecords : ∀ rs : List Record, b.payload = toJson rs → (∀ r ∈ rs, ∃ id ∈ c.ids, l.find? id = some r) →
      HoldsRecords l c.ids b := by
    intro rs hpayload hrs
    refine ⟨rs, hpayload, ?_, fun r hr => ⟨lossless r, hrs r hr⟩⟩
    rw [hpayload]
    exact lossless rs
  rcases Subscriptions.payload_of_whole hc hb with ⟨-, hpayload⟩ | ⟨-, m, -, hpayload⟩
  · refine hrecords _ hpayload fun r hr => ?_
    obtain ⟨id, hid, hresolve⟩ := List.mem_filterMap.mp hr
    exact ⟨id, (List.mem_filter.mp hid).1, by rw [← hl]; exact hresolve⟩
  · refine hrecords _ hpayload fun r hr => ?_
    obtain ⟨id, hid, hresolve⟩ := List.mem_filterMap.mp (List.mem_filter.mp hr).1
    exact ⟨id, (List.mem_filter.mp hid).1, by rw [← hl]; exact hresolve⟩

theorem holdsRecords_of_signal {b : Switchboard} {id : Nat} {sig : Signal} {ids : List ObjectId}
    {impacted : SortedSet AccountId} (hsig : sig = .created ids impacted ∨ sig = .changed ids impacted)
    {batch : Batch} (hbatch : batch ∈ b.batchesFor sig id) : HoldsRecords b.ledger ids batch := by
  unfold batchesFor at hbatch
  split at hbatch
  · contradiction
  · rename_i s _
    rcases hsig with rfl | rfl
    · exact holdsRecords_of_whole (s := s) (c := ⟨s.notifyAll, ids, impacted, b.ledger.find?, true⟩) rfl rfl hbatch
    · exact holdsRecords_of_whole (s := s) (c := ⟨false, ids, impacted, b.ledger.find?, true⟩) rfl rfl hbatch

/-- A job goes back to a signal of the run, and holds the records of that signal as the ledger had them then, if it
tells them whole. -/
def Traced (b : Switchboard) (es : List Event) (j : Job) : Prop :=
  ∃ before e after sig, es = before ++ e :: after ∧ signal? e = some sig ∧
    j.batch ∈ (b.run before).2.batchesFor sig j.session ∧
    ∀ ids impacted, sig = .created ids impacted ∨ sig = .changed ids impacted →
      HoldsRecords (b.run before).2.ledger ids j.batch

/-- Every value reads back from what it is written as, a record as the sort it is, and every record a subscriber
is called with as the record it was made from. -/
theorem decoding_undoes_encoding :
    (Lossless ObjectId ∧ Lossless AccountId ∧ Lossless AssetId ∧ Lossless PublicKey ∧ Lossless Address ∧
      Lossless BlockId ∧ Lossless Amount ∧ Lossless Price ∧ Lossless Market ∧ Lossless Account ∧ Lossless Asset ∧
      Lossless LimitOrder ∧ Lossless CallOrder ∧ Lossless AccountBalance ∧ Lossless AddressBalance ∧
      Lossless AppliedOperation ∧ Lossless HistoryLink ∧ Lossless Record ∧ Lossless Operation ∧ Lossless Outcome ∧
      Lossless Transaction ∧ Lossless Block) ∧
    ((∀ j, Record.firstSort? j = Record.readers.findSome? (· j)) ∧
      ∀ r : Record, ∀ read ∈ Record.readers.take r.place, read (toJson r) = none ∧ read (toJson r).asValue = none) ∧
    ∀ settings hasRuntime b, Switchboard.start settings hasRuntime = .ok b → ∀ es,
      ∀ j ∈ (Log.ofOuts (b.run es).1).called, Traced b es j := by
  refine ⟨?_, ⟨Record.firstSort?_eq, fun r read hread => ⟨?_, ?_⟩⟩, fun settings hasRuntime b hb es j hj => ?_⟩
  · exact ⟨lossless, lossless, lossless, lossless, lossless, lossless, lossless, lossless, lossless, lossless,
      lossless, lossless, lossless, lossless, lossless, lossless, lossless, lossless, lossless, lossless, lossless,
      lossless⟩
  · have hrefuses := r.earlier_refuses Json.permutes_id read hread
    rwa [Json.arranged_same] at hrefuses
  · rw [Json.asValue_plain r.plain]
    exact r.earlier_refuses Json.permutes_byKey read hread
  · obtain ⟨before, e, after, sig, hes, hsig, hbatch⟩ := called_of_run hb hj
    refine ⟨before, e, after, sig, hes, hsig, hbatch, ?_⟩
    intro ids impacted hwhole
    exact holdsRecords_of_signal hwhole hbatch

def offerToSell : LimitOrder := ⟨Kind.limitOrder.id 7, 0, ⟨5⟩, 100, ⟨⟨10, ⟨1⟩⟩, ⟨20, ⟨2⟩⟩⟩⟩

/-- A subscriber to a market, which it names the other way round, is called with an order that changed in it. -/
def calledOnce : List Event :=
  [.insert (.limitOrder offerToSell), .openSession, .request 1 (.subscribeMarket ⟨"a", none⟩ ⟨2⟩ ⟨1⟩),
    .signal (.changed [offerToSell.id] .empty), .drain .faithful]

theorem decoding_undoes_encoding_of_one :
    (∃ b, Switchboard.start .standard true = .ok b ∧ ∃ j, (Log.ofOuts (b.run calledOnce).1).called = [j] ∧
      j.session = 1 ∧ Traced b calledOnce j) ∧
    (ofJson? .text (toJson (Record.limitOrder offerToSell))).map Record.account = none := by
  have hone : ∀ {js : List Job} {P : Job → Prop}, js.map (·.session) = [1] → (∀ j ∈ js, P j) →
      ∃ j, js = [j] ∧ j.session = 1 ∧ P j := by
    intro js P hjs hall
    obtain ⟨j, rfl, hsession⟩ := List.map_eq_singleton_iff.mp hjs
    exact ⟨j, rfl, hsession, hall j (List.mem_singleton_self j)⟩
  constructor
  · exact ⟨_, rfl, hone (by decide +kernel) (decoding_undoes_encoding.2.2 .standard true _ rfl calledOnce)⟩
  · exact (decoding_undoes_encoding.2.1.2 (.limitOrder offerToSell) _ List.mem_cons_self).1

end LedgerWatch.Switchboard
