/-
  LedgerWatch.Proofs.Switchboard.Holdings — the ledger of a node is a finite map.

  Of all that happens to a node only its edits touch the ledger (`ledger_run`). So the
  ledger is the map that the last edit about each id leaves, every query of it answers
  from that map, and so does the next edit: with what was there before
  (`ledger_is_finite_map`).
-/

import LedgerWatch.Proofs.Ledger.Contents
import LedgerWatch.Proofs.Switchboard.Sessions

namespace LedgerWatch

/-- What an event does to the ledger. -/
def Event.edit? : Event → Option Ledger.Edit
  | .insert r => some (.insert r)
  | .erase id => some (.erase id)
  | .apply ops => some (.apply ops)
  | .openSession | .drop _ | .request _ _ | .close _ | .signal _ | .signalTo _ _ | .work _ _ | .drain _ | .shutdown => none

namespace Switchboard

theorem ledger_step (b : Switchboard) (e : Event) : (b.step e).2.ledger = b.ledger.after e.edit?.toList := by
  rw [(world_step b e).2]
  cases e <;> rfl

theorem ledger_run (b : Switchboard) (es : List Event) :
    (b.run es).2.ledger = b.ledger.after (es.filterMap Event.edit?) := by
  induction es generalizing b with
  | nil => rfl
  | cons e es ih =>
    show ((b.step e).2.run es).2.ledger = _
    rw [ih, ledger_step]
    cases h : e.edit? with
    | none =>
      rw [List.filterMap_cons_none h]
      rfl
    | some edit =>
      rw [List.filterMap_cons_some h]
      rfl

/-- In a run each id has the object put in last and not taken out since, under its own id. That is what every query
answers from, what an edit gives back of what it replaces or takes out, and the operations are those reported last. -/
theorem ledger_is_finite_map {settings : Settings} {hasRuntime : Bool} {b : Switchboard}
    (h : Switchboard.start settings hasRuntime = .ok b) (es : List Event) :
    let c := (b.run es).2
    let edits := es.filterMap Event.edit?
    Ledger.Answers c.ledger (Ledger.lastLeft edits) ∧
      c.ledger.applied = Ledger.lastApplied edits ∧
      (∀ r, (c.step (.insert r)).1 = .previous (Ledger.lastLeft edits r.id)) ∧
      ∀ id, (c.step (.erase id)).1 = .previous (Ledger.lastLeft edits id) := by
  intro c edits
  obtain ⟨p, -, rfl⟩ := start_ok h
  have hledger : c.ledger = Ledger.empty.after edits := ledger_run _ es
  have hfind : ∀ id, c.ledger.find? id = Ledger.lastLeft edits id := by
    intro id
    rw [hledger, Ledger.find?_after]
  refine ⟨?_, ?_, ?_, ?_⟩
  · rw [hledger]
    exact Ledger.answers_after edits
  · rw [hledger]
    exact Ledger.applied_after edits
  · intro r
    show Out.previous (c.ledger.find? r.id) = _
    rw [hfind]
  · intro id
    show Out.previous (c.ledger.find? id) = _
    rw [hfind]

def someKey : PublicKey := ⟨.replicate 33 7⟩

/-- An account under an id that an order had before it, which is not of its kind. -/
def latecomer : Account := ⟨Kind.limitOrder.id 1, "late", ⟨0⟩, [], [someKey]⟩

def coins (balance : Int64) : AccountBalance := ⟨Kind.accountBalance.id 3, ⟨5⟩, ⟨0⟩, balance⟩

/-- One object gives way to another of a different sort; one is taken out and put in again. -/
def putAndTaken : List Event :=
  [.insert (.limitOrder ⟨latecomer.id, 0, ⟨5⟩, 10, ⟨⟨1, ⟨0⟩⟩, ⟨1, ⟨1⟩⟩⟩⟩), .insert (.accountBalance (coins 1)),
    .insert (.account latecomer), .openSession, .insert (.account ⟨Kind.account.id 9, "early", ⟨0⟩, [someKey], []⟩),
    .erase (coins 1).id, .insert (.accountBalance (coins 2))]

theorem ledger_is_finite_map_of_seven :
    ∃ b, Switchboard.start .standard true = .ok b ∧
      let c := (b.run putAndTaken).2
      c.ledger.find? latecomer.id = some (.account latecomer) ∧
        (c.step (.erase (coins 1).id)).1 = .previous (some (.accountBalance (coins 2))) ∧
        coins 2 ∈ c.ledger.balancesOf ⟨5⟩ ∧ coins 1 ∉ c.ledger.balancesOf ⟨5⟩ ∧
        c.ledger.limitOrdersOf ⟨5⟩ = [] ∧ c.ledger.accountsWithKey someKey = [⟨9⟩, ⟨1⟩] := by
  refine ⟨_, rfl, ?_⟩
  obtain ⟨hanswers, -, -, herase⟩ := @ledger_is_finite_map .standard true _ rfl putAndTaken
  have hcoins : Ledger.lastLeft (putAndTaken.filterMap Event.edit?) (coins 2).id = some (.accountBalance (coins 2)) := by
    decide +kernel
  refine ⟨?_, ?_, ?_, ?_, by decide +kernel, by decide +kernel⟩
  · rw [hanswers.find]
    decide +kernel
  · exact (herase (coins 2).id).trans (congrArg Out.previous hcoins)
  · exact ((hanswers.balancesOf ⟨5⟩).exact (coins 2)).mpr ⟨hcoins, rfl⟩
  · intro hold
    have hfound := (((hanswers.balancesOf ⟨5⟩).exact (coins 1)).mp hold).1
    revert hfound
    decide +kernel

end Switchboard

end LedgerWatch
