/-
  LedgerWatch.Proofs.Session.Lookups — accounts looked up by their names.

  A look-up lists accounts, and answers by name: accounts that bear one name are one entry,
  with the id of the last of them. Whether an account is armed goes by the list and not by
  the answer (`single_lookup_arms_iff`), so an entry for several accounts is not armed
  (`namesakes_not_armed`).

  What an entry names need not be what a query for full accounts finds by the same text: a
  name may read as an id, another account may bear it, or the account may be under an id
  of another kind. Where the name stands for the account under the id, both queries find
  this account, by the name and by the id alike (`lookups_agree`).
-/

import LedgerWatch.Proofs.Bloom.Contents
import LedgerWatch.Proofs.Ident.Written
import LedgerWatch.Proofs.Session.Enlisted
import LedgerWatch.Proofs.Session.FullAccounts

namespace LedgerWatch

/-- The answer to a look-up: of several accounts with one name the last counts. -/
def Ledger.namesFrom (l : Ledger) (lower : String) (limit : Nat) : ByName AccountId :=
  .ofList ((l.accountsFrom lower limit).map fun a => (a.name, a.accountId))

theorem Ledger.namesFrom_single {l : Ledger} {lower : String} {limit : Nat} {a : Account}
    (h : l.accountsFrom lower limit = [a]) : l.namesFrom lower limit = [(a.name, a.accountId)] := by
  unfold Ledger.namesFrom
  rw [h]
  rfl

theorem mem_namesFrom {l : Ledger} {lower : String} {limit : Nat} {name : String} {id : AccountId}
    (h : (name, id) ∈ l.namesFrom lower limit) :
    ∃ a ∈ l.accountsFrom lower limit, a.name = name ∧ a.accountId = id := by
  have hlisted := ByName.of_last? ((ByName.mem_ofList_iff _ name id).mp h)
  obtain ⟨a, ha, hsame⟩ := List.mem_map.mp hlisted
  cases hsame
  exact ⟨a, ha, rfl, rfl⟩

theorem bears_of_namesFrom {l : Ledger} {lower : String} {limit : Nat} {name : String} {id : AccountId}
    (h : l.namesFrom lower limit = [(name, id)]) : ∀ a ∈ l.accountsFrom lower limit, a.name = name := by
  intro a ha
  have hin : a.name ∈ (l.namesFrom lower limit).names :=
    (ByName.mem_names_ofList _ _).mpr (List.mem_map.mpr ⟨_, List.mem_map_of_mem ha, rfl⟩)
  rw [h] at hin
  exact List.mem_singleton.mp hin

namespace Subscriptions

/-! ## What a look-up arms -/

section

variable (l : Ledger) (s : Subscriptions) (lower : String) {limit : Nat} (hlimit : limit ≤ maxLookup)

include hlimit

theorem serve_lookup_fst : (s.serve l (.lookupAccounts lower limit)).1 = .names (l.namesFrom lower limit) := by
  simp only [serve, lookupAccounts, if_neg (Nat.not_lt.mpr hlimit)]
  rfl

theorem serve_lookup_single {a : Account} (h : l.accountsFrom lower limit = [a]) :
    (s.serve l (.lookupAccounts lower limit)).2 = (s.arm (.account a.accountId)).2 := by
  simp only [serve, lookupAccounts, if_neg (Nat.not_lt.mpr hlimit), h]

theorem serve_lookup_several (h : (l.accountsFrom lower limit).length ≠ 1) :
    (s.serve l (.lookupAccounts lower limit)).2 = s := by
  simp only [serve, lookupAccounts, if_neg (Nat.not_lt.mpr hlimit)]
  split
  · rename_i only hone
    rw [hone] at h
    contradiction
  · rfl

end

/-- An answer of one entry is of accounts that all bear its name. The id of the entry is armed if there is just one of
them, and nothing is otherwise, nor for any other answer. -/
theorem single_lookup_arms_iff (l : Ledger) {s : Subscriptions} (hs : s.isSubscribed = true) (lower : String)
    {limit : Nat} (hlimit : limit ≤ maxLookup) :
    let accounts := l.accountsFrom lower limit
    let s' := (s.serve l (.lookupAccounts lower limit)).2
    ∃ found, (s.serve l (.lookupAccounts lower limit)).1 = .names found ∧ (found.length ≠ 1 → s' = s) ∧
      ∀ name id, found = [(name, id)] → accounts ≠ [] ∧ (∀ a ∈ accounts, a.name = name) ∧
        s' = (if accounts.length = 1 then (s.arm (.account id)).2 else s) ∧
        (s'.watches (.account id) = true ↔ accounts.length = 1 ∨ s.watches (.account id) = true) := by
  intro accounts s'
  have hfst := serve_lookup_fst l s lower hlimit
  by_cases hone : accounts.length = 1
  · obtain ⟨a, ha⟩ := List.length_eq_one_iff.mp hone
    have hfound : l.namesFrom lower limit = [(a.name, a.accountId)] := Ledger.namesFrom_single ha
    have hs' : s' = (s.arm (.account a.accountId)).2 := serve_lookup_single l s lower hlimit ha
    refine ⟨_, hfst, ?_, ?_⟩
    · intro hlength
      rw [hfound] at hlength
      contradiction
    · intro name id hsingle
      have hall := bears_of_namesFrom hsingle
      rw [hfound] at hsingle
      cases hsingle
      have hwatched : s'.watches (.account a.accountId) = true := by
        rw [hs', arm_eq_enlisted]
        exact watches_enlisted hs (.inl List.mem_cons_self) _
      refine ⟨?_, hall, ?_, ?_⟩
      · rw [ha]
        exact List.cons_ne_nil a []
      · rw [if_pos hone, hs']
      · exact iff_of_true hwatched (.inl hone)
  · have hs' : s' = s := serve_lookup_several l s lower hlimit hone
    refine ⟨_, hfst, fun _ => hs', ?_⟩
    intro name id hsingle
    have hin : (name, id) ∈ l.namesFrom lower limit := hsingle ▸ List.mem_cons_self
    obtain ⟨a, ha, -⟩ := mem_namesFrom hin
    refine ⟨List.ne_nil_of_mem ha, bears_of_namesFrom hsingle, ?_, ?_⟩
    · rw [if_neg hone, hs']
    · rw [hs']
      simp [hone]

/-- A subscriber who has asked for nothing yet. -/
def subscriber : Subscriptions := (new .standard).after [.install (some ⟨"a", none⟩) false]

theorem watches_subscriber (item : Watchable) : subscriber.watches item = false := by
  have hupdate : subscriber.update = some ⟨⟨"a", none⟩, .ofSettings .standard⟩ :=
    update_after .standard [.install (some ⟨"a", none⟩) false]
  unfold watches
  rw [hupdate]
  exact BloomFilter.contains_new _ _ item.bytes

def namesake (number : UInt64) : Account := ⟨Kind.account.id number, "alice", ⟨0⟩, [], []⟩

/-- A ledger with one account in it. -/
def holdingOnly (a : Account) : Ledger := .after .empty [.insert (.account a)]

theorem accountsFrom_holdingOnly {a : Account} (h : "" ≤ a.name) (limit : Nat) :
    (holdingOnly a).accountsFrom "" (limit + 1) = [a] := by
  have hnamed : (holdingOnly a).accounts.filter (fun a => decide ("" ≤ a.name)) = [a] := by
    show [a].filter _ = [a]
    simp [h]
  rw [Ledger.accountsFrom_of_sorted hnamed (List.pairwise_singleton _ _), List.take_succ_cons, List.take_nil]

theorem lookup_holdingOnly (s : Subscriptions) {a : Account} (h : "" ≤ a.name) :
    (s.serve (holdingOnly a) (.lookupAccounts "" 10)).1 = .names [(a.name, a.accountId)] := by
  rw [serve_lookup_fst _ s "" (by decide), Ledger.namesFrom_single (accountsFrom_holdingOnly h 9)]

theorem single_lookup_arms_iff_of_one :
    subscriber.isSubscribed = true ∧ 10 ≤ maxLookup ∧
      let l := holdingOnly (namesake 5)
      let s' := (subscriber.serve l (.lookupAccounts "" 10)).2
      (subscriber.serve l (.lookupAccounts "" 10)).1 = .names [("alice", ⟨5⟩)] ∧ s'.watches (.account ⟨5⟩) = true := by
  refine ⟨rfl, by decide, ?_⟩
  intro l s'
  have hreply : (subscriber.serve l (.lookupAccounts "" 10)).1 = .names [("alice", ⟨5⟩)] :=
    lookup_holdingOnly subscriber (by decide +kernel)
  obtain ⟨found, hfound, -, hsingle⟩ := @single_lookup_arms_iff l subscriber rfl "" 10 (by decide)
  obtain ⟨-, -, -, hwatched⟩ := hsingle "alice" ⟨5⟩ (Reply.names.inj (hfound.symm.trans hreply))
  refine ⟨hreply, hwatched.mpr (.inl ?_)⟩
  rw [accountsFrom_holdingOnly (by decide +kernel) 9]
  rfl

def twoAlices : Ledger := .after .empty [.insert (.account (namesake 5)), .insert (.account (namesake 6))]

theorem accountsFrom_twoAlices : twoAlices.accountsFrom "" 10 = [namesake 5, namesake 6] := by
  have hnamed : twoAlices.accounts.filter (fun a => decide ("" ≤ a.name)) = [namesake 5, namesake 6] := by decide +kernel
  exact Ledger.accountsFrom_of_sorted hnamed (by decide +kernel) 10

theorem lookup_twoAlices (s : Subscriptions) :
    (s.serve twoAlices (.lookupAccounts "" 10)).1 = .names [("alice", ⟨6⟩)] := by
  rw [serve_lookup_fst _ s "" (by decide), Ledger.namesFrom, accountsFrom_twoAlices]
  rfl

/-- Two accounts of one name come to one entry, and neither is armed. -/
theorem namesakes_not_armed :
    let s' := (subscriber.serve twoAlices (.lookupAccounts "" 10)).2
    subscriber.isSubscribed = true ∧ (subscriber.serve twoAlices (.lookupAccounts "" 10)).1 = .names [("alice", ⟨6⟩)] ∧
      s'.watches (.account ⟨6⟩) = false := by
  have hseveral : (twoAlices.accountsFrom "" 10).length ≠ 1 := by
    rw [accountsFrom_twoAlices]
    decide
  refine ⟨rfl, lookup_twoAlices subscriber, ?_⟩
  rw [serve_lookup_several _ _ "" (by decide) hseveral, watches_subscriber]

end Subscriptions

/-! ## Names and ids -/

open Subscriptions

/-- Full accounts are the same by the name and by the id of an entry, and are of an account with this id. -/
def FoundEitherWay (l : Ledger) (name : String) (id : AccountId) : Prop :=
  ∃ f : FullAccount, f.account.accountId = id ∧ ∀ (s : Subscriptions) (subscribe : Bool),
    (s.serve l (.getFullAccounts [name] subscribe)).1 = .fullAccounts [(name, f)] ∧
      (s.serve l (.getFullAccounts [id.text] subscribe)).1 = .fullAccounts [(id.text, f)]

theorem ObjectId.beginsWithDigit_text (id : ObjectId) : BeginsWithDigit id.text := by
  obtain ⟨c, cs, hcs⟩ := List.exists_cons_of_ne_nil (Text.Numeral.write_ne_nil id.space.toNat)
  have htext : id.text.toList = id.chars := String.toList_ofList
  refine ⟨c, ?_, Text.Numeral.isDigit_of_mem_write (hcs ▸ List.mem_cons_self)⟩
  rw [htext, ObjectId.chars, hcs]
  rfl

theorem fullAccounts_single {l : Ledger} {key : String} {a : Account} (h : l.resolve? key = some a) :
    l.fullAccounts [key] = [(key, l.fullAccount a)] := by
  unfold Ledger.fullAccounts
  rw [List.filterMap_cons_some (by rw [h]; rfl)]
  rfl

/-- Where the name stands for the account under the id, both lead to it. -/
theorem foundEitherWay {l : Ledger} (h : l.Keyed) {name : String} {id : AccountId} {a : Account}
    (hheld : l.find? id.objectId = some (.account a)) (hstands : StandsFor l.find? name a) :
    FoundEitherWay l name id := by
  have hname : l.resolve? name = some a := (resolve?_eq_some_iff h).mpr hstands
  have hid : l.resolve? id.text = some a :=
    (resolve?_eq_some_iff h).mpr (.asId id.objectId.beginsWithDigit_text (AccountId.parse_text id) hheld)
  have hnumber : a.accountId = id := by
    have hunder : a.id = id.objectId := h id.objectId (.account a) hheld
    unfold Account.accountId
    rw [hunder]
    rfl
  refine ⟨l.fullAccount a, hnumber, fun s subscribe => ?_⟩
  rw [serve_getFullAccounts, serve_getFullAccounts, fullAccounts_single hname, fullAccounts_single hid]
  exact ⟨rfl, rfl⟩

/-- Each entry of a look-up is of an account that the ledger holds. If the name, read as a query for full accounts
reads it, stands for the account under the id, then both ways lead to this account; and it does so if it does not begin
with a digit and every account that bears it is under this id. -/
theorem lookups_agree (edits : List Ledger.Edit) (lower : String) {limit : Nat} (hlimit : limit ≤ maxLookup) :
    let l := Ledger.empty.after edits
    ∃ found, (∀ s : Subscriptions, (s.serve l (.lookupAccounts lower limit)).1 = .names found) ∧
      ∀ name id, (name, id) ∈ found →
        (∃ a, l.find? a.id = some (.account a) ∧ a.name = name ∧ a.accountId = id ∧ lower ≤ name) ∧
        ((∃ a, l.find? id.objectId = some (.account a) ∧ StandsFor l.find? name a) → FoundEitherWay l name id) ∧
        (¬BeginsWithDigit name → (∀ a, l.find? a.id = some (.account a) → a.name = name → a.id = id.objectId) →
          FoundEitherWay l name id) := by
  intro l
  have hkeyed : l.Keyed := Ledger.keyed_after edits
  refine ⟨l.namesFrom lower limit, fun s => serve_lookup_fst l s lower hlimit, ?_⟩
  intro name id hentry
  obtain ⟨a, hlisted, hname, hid⟩ := mem_namesFrom hentry
  obtain ⟨hheld, hlower⟩ := Ledger.of_mem_accountsFrom hkeyed hlisted
  refine ⟨⟨a, hheld, hname, hid, hname ▸ hlower⟩, ?_, ?_⟩
  · rintro ⟨a', hheld', hstands⟩
    exact foundEitherWay hkeyed hheld' hstands
  · intro hdigit honly
    have hunder : a.id = id.objectId := honly a hheld hname
    refine foundEitherWay hkeyed (hunder ▸ hheld) (.asName hdigit ⟨hheld, hname, ?_⟩)
    intro a' hheld' hname'
    left
    rw [honly a' hheld' hname', ← hunder, hheld] at hheld'
    exact (Record.account.inj (Option.some.inj hheld')).symm

theorem lookups_agree_of_one :
    10 ≤ maxLookup ∧
      let l := holdingOnly (namesake 5)
      (subscriber.serve l (.lookupAccounts "" 10)).1 = .names [("alice", ⟨5⟩)] ∧ FoundEitherWay l "alice" ⟨5⟩ := by
  refine ⟨by decide, ?_⟩
  intro l
  have hreply : (subscriber.serve l (.lookupAccounts "" 10)).1 = .names [("alice", ⟨5⟩)] :=
    lookup_holdingOnly subscriber (by decide +kernel)
  obtain ⟨found, hfound, hentries⟩ := @lookups_agree [.insert (.account (namesake 5))] "" 10 (by decide)
  have hentry : ("alice", ⟨5⟩) ∈ found := by
    rw [Reply.names.inj ((hfound subscriber).symm.trans hreply)]
    exact List.mem_cons_self
  refine ⟨hreply, (hentries "alice" ⟨5⟩ hentry).2.2 ?_ ?_⟩
  · rintro ⟨c, hc, hdigit⟩
    cases (Option.some.inj hc : 'a' = c)
    contradiction
  · intro a hheld hname
    have hlisting := Ledger.accounts_listing (Ledger.keyed_after [.insert (.account (namesake 5))]) (·.name = "alice")
    have hin : a ∈ [namesake 5] := (hlisting.exact a).mpr ⟨hheld, hname⟩
    rw [List.mem_singleton.mp hin]
    rfl

def sailor : Account := ⟨Kind.account.id 5, "7seas", ⟨0⟩, [], []⟩

def stray : Account := ⟨Kind.limitOrder.id 1, "late", ⟨0⟩, [], []⟩

/-- A name that begins with a digit is read as an id; of two accounts of one name the last is listed and the first is
found; an account under an id that is not of its kind is listed with an id that leads nowhere. -/
theorem lookups_disagree :
    let s := subscriber
    (s.serve (holdingOnly sailor) (.lookupAccounts "" 10)).1 = .names [("7seas", ⟨5⟩)] ∧
      (s.serve (holdingOnly sailor) (.getFullAccounts ["7seas"] false)).1 = .fullAccounts [] ∧
      (s.serve twoAlices (.lookupAccounts "" 10)).1 = .names [("alice", ⟨6⟩)] ∧
      (s.serve twoAlices (.getFullAccounts ["alice"] false)).1 = .fullAccounts [("alice", ⟨namesake 5, [], [], []⟩)] ∧
      (s.serve (holdingOnly stray) (.lookupAccounts "" 10)).1 = .names [("late", ⟨1⟩)] ∧
      (s.serve (holdingOnly stray) (.getFullAccounts [AccountId.text ⟨1⟩] false)).1 = .fullAccounts [] := by
  intro s
  have hall (l : Ledger) (keys : List String) (found : ByName FullAccount) (h : l.fullAccounts keys = found) :
      (s.serve l (.getFullAccounts keys false)).1 = .fullAccounts found :=
    h ▸ serve_getFullAccounts l s keys false
  refine ⟨lookup_holdingOnly s ?_, hall _ _ _ ?_, lookup_twoAlices s, hall _ _ _ ?_, lookup_holdingOnly s ?_,
    hall _ _ _ ?_⟩
  all_goals decide +kernel

end LedgerWatch
