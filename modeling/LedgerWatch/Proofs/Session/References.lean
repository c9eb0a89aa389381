/-
  LedgerWatch.Proofs.Session.References — the accounts that keys belong to.

  A key is answered with the accounts that have a key of its address, and then with those
  that have the key itself, both as the ledger lists them (`KeyAnswer`). The second list
  is a part of the first, so an account with the key is in the answer twice. One that is
  in it once has another key of the same address; it takes a collision of addresses for
  that.

  The answer names accounts by their numbers alone. Accounts under ids of their own kind
  have each a number of their own, and these are counted as the accounts are.
-/

import LedgerWatch.Proofs.Ledger.Accounts
import LedgerWatch.Proofs.Session.Lookups

namespace LedgerWatch

/-- Among its owner keys or its active ones. -/
def Account.Lists (a : Account) (key : PublicKey) : Prop := key ∈ a.ownerKeys ∨ key ∈ a.activeKeys

/-- Has a key of an address, which need not be the one the address was taken from. -/
def Account.ListsAddress (a : Account) (address : Address) : Prop := ∃ k, a.Lists k ∧ k.address = address

theorem Account.any_keys_iff (a : Account) (address : Address) :
    a.keys.any (·.address = address) = true ↔ a.ListsAddress address := by
  simp only [List.any_eq_true, decide_eq_true_eq, keys, List.mem_append]
  exact Iff.rfl

instance (a : Account) (address : Address) : Decidable (a.ListsAddress address) :=
  decidable_of_iff _ (a.any_keys_iff address)

/-- The answer to a key, from the accounts that have its address and those that have the key. -/
structure KeyAnswer (held : ObjectId → Option Record) (key : PublicKey) (ids : List AccountId)
    (ofAddress ofKey : List Account) : Prop where
  answer : ids = ofAddress.map Account.accountId ++ ofKey.map Account.accountId
  addressListing : Ledger.Listing held .account (·.ListsAddress key.address) ofAddress
  keyListing : Ledger.Listing held .account (·.Lists key) ofKey
  part : ofKey.Sublist ofAddress
  twice : ∀ a, held a.id = some (.account a) → a.Lists key → (ofAddress ++ ofKey).count a = 2
  once : ∀ a, (ofAddress ++ ofKey).count a = 1 →
    ¬a.Lists key ∧ ∃ k, k ≠ key ∧ a.Lists k ∧ k.address = key.address
  numbers : (∀ a ∈ ofAddress, a.id.is .account = true) →
    (ofAddress.map Account.accountId).Pairwise (fun i j => i.number < j.number) ∧
      ∀ a ∈ ofAddress, ids.count a.accountId = (ofAddress ++ ofKey).count a

/-! ## One key -/

theorem count_eq_two {α : Type} [DecidableEq α] {xs ys : List α} (hnodup : xs.Nodup) (hpart : ys.Sublist xs) {x : α}
    (hx : x ∈ ys) : (xs ++ ys).count x = 2 := by
  rw [List.count_append, List.count_eq_one_of_mem hnodup (hpart.subset hx),
    List.count_eq_one_of_mem (hnodup.sublist hpart) hx]

theorem count_map_eq {α β : Type} [DecidableEq α] [DecidableEq β] {f : α → β} {xs : List α} {x : α}
    (h : ∀ y ∈ xs, f y = f x → y = x) : (xs.map f).count (f x) = xs.count x := by
  rw [List.count, List.count, List.countP_map]
  refine List.countP_congr ?_
  intro y hy
  simp only [Function.comp_apply, beq_iff_eq]
  exact ⟨h y hy, congrArg f⟩

theorem keyAnswer_of_listings {held : ObjectId → Option Record} {key : PublicKey}
    {ofAddress ofKey : List Account}
    (haddress : Ledger.Listing held .account (·.ListsAddress key.address) ofAddress)
    (hkey : Ledger.Listing held .account (·.Lists key) ofKey) (hpart : ofKey.Sublist ofAddress) :
    KeyAnswer held key (ofAddress.map Account.accountId ++ ofKey.map Account.accountId) ofAddress ofKey := by
  have htwice : ∀ a, held a.id = some (.account a) → a.Lists key → (ofAddress ++ ofKey).count a = 2 := by
    intro a hheld hlists
    exact count_eq_two haddress.nodup hpart ((hkey.exact a).mpr ⟨hheld, hlists⟩)
  refine ⟨rfl, haddress, hkey, hpart, htwice, ?_, ?_⟩
  · intro a honce
    have hin : a ∈ ofAddress ++ ofKey := List.count_pos_iff.mp (honce ▸ Nat.one_pos)
    have hall : a ∈ ofAddress := (List.mem_append.mp hin).elim id fun hmem => hpart.subset hmem
    obtain ⟨hheld, k, hk, hsame⟩ := (haddress.exact a).mp hall
    have hnot : ¬a.Lists key := by
      intro hlists
      rw [htwice a hheld hlists] at honce
      contradiction
    exact ⟨hnot, k, fun heq => hnot (heq ▸ hk), hk, hsame⟩
  · intro hkind
    have hincreasing := Ledger.increasing_accountIds haddress hkind
    have hnodup : (ofAddress.map Account.accountId).Nodup := by
      refine hincreasing.imp ?_
      rintro i j hij rfl
      exact UInt64.lt_irrefl _ hij
    refine ⟨hincreasing, fun a ha => ?_⟩
    rw [← List.map_append]
    refine count_map_eq fun c hc hsame => ?_
    have hcin : c ∈ ofAddress := (List.mem_append.mp hc).elim id fun hmem => hpart.subset hmem
    exact List.inj_on_of_nodup_map hnodup hcin ha hsame

namespace Ledger

theorem accountsWithAddress_listing {l : Ledger} (h : Keyed l) (address : Address) :
    Listing l.find? .account (·.ListsAddress address)
      (l.accounts.filter fun a => a.keys.any (·.address = address)) := by
  have hany : (fun a : Account => a.keys.any (·.address = address)) = fun a => decide (a.ListsAddress address) := by
    funext a
    rw [Bool.eq_iff_iff, a.any_keys_iff, decide_eq_true_iff]
  rw [hany]
  exact accounts_listing h (·.ListsAddress address)

theorem keyAnswer_references {l : Ledger} (h : Keyed l) (key : PublicKey) :
    ∃ ofAddress ofKey, KeyAnswer l.find? key (Subscriptions.references l key) ofAddress ofKey := by
  have hpart : (l.accounts.filter (·.keys.contains key)).Sublist
      (l.accounts.filter fun a => a.keys.any (·.address = key.address)) := by
    refine List.monotone_filter_right _ ?_
    intro a ha
    exact List.any_eq_true.mpr ⟨key, List.contains_iff_mem.mp ha, decide_eq_true rfl⟩
  exact ⟨_, _,
    keyAnswer_of_listings (accountsWithAddress_listing h key.address) (accountsWithKey_listing h key) hpart⟩

end Ledger

/-! ## All keys -/

namespace Subscriptions

/-- Keys are answered one by one, and with a callback the keys, their addresses and all accounts answered with are
watched from then on. -/
theorem key_references_exact (edits : List Ledger.Edit) (s : Subscriptions) (keys : List PublicKey) :
    let l := Ledger.empty.after edits
    ∃ found s', s.serve l (.getKeyReferences keys) = (.references found, s') ∧
      List.Forall₂ (fun key ids => ∃ ofAddress ofKey, KeyAnswer l.find? key ids ofAddress ofKey) keys found ∧
      (s.isSubscribed = true →
        (∀ key ∈ keys, s'.watches (.key key) = true ∧ s'.watches (.address key.address) = true) ∧
          ∀ ids ∈ found, ∀ id ∈ ids, s'.watches (.account id) = true) := by
  intro l
  have hserve := serve_query l s (r := .getKeyReferences keys) rfl
  refine ⟨keys.map (references l), _, rfl, ?_, ?_⟩
  · refine List.forall₂_map_right_iff.mpr (List.forall₂_same.mpr ?_)
    intro key _
    exact Ledger.keyAnswer_references (Ledger.keyed_after edits) key
  · intro hs
    have hwatched {item : Watchable} (hitem : item ∈ (Request.getKeyReferences keys).arms l s
        (.references (keys.map (references l)))) : (s.serve l (.getKeyReferences keys)).2.watches item = true := by
      rw [hserve]
      exact watches_enlisted hs (.inl hitem) _
    refine ⟨fun key hkey => ⟨hwatched ?_, hwatched ?_⟩, fun ids hids id hid => hwatched ?_⟩
    · exact List.mem_append_left _ (List.mem_flatMap.mpr ⟨key, hkey, List.mem_cons_self⟩)
    · exact List.mem_append_left _ (List.mem_flatMap.mpr ⟨key, hkey, List.mem_cons_of_mem _ List.mem_cons_self⟩)
    · exact List.mem_append_right _ (List.mem_map_of_mem (List.mem_flatten.mpr ⟨ids, hids, hid⟩))

def keyOf (byte : UInt8) : PublicKey := ⟨.replicate 33 byte⟩

def keyHolder (number : UInt64) (owner active : List PublicKey) : Account :=
  ⟨Kind.account.id number, "", ⟨0⟩, owner, active⟩

/-- One account has a key among its owner keys and twice among its active ones. -/
def twoKeyHolders : List Ledger.Edit :=
  [.insert (.account (keyHolder 7 [keyOf 2] [])),
    .insert (.account (keyHolder 5 [keyOf 2] [keyOf 3, keyOf 2, keyOf 2]))]

theorem key_references_exact_of_two :
    let l := Ledger.empty.after twoKeyHolders
    ∃ ids others s', subscriber.isSubscribed = true ∧
      subscriber.serve l (.getKeyReferences [keyOf 2, keyOf 4]) = (.references [ids, others], s') ∧
      ids.count ⟨5⟩ = 2 ∧ ids.count ⟨7⟩ = 2 ∧
      s'.watches (.key (keyOf 4)) = true ∧ s'.watches (.account ⟨7⟩) = true := by
  intro l
  obtain ⟨found, s', hserve, hfound, hwatched⟩ := key_references_exact twoKeyHolders subscriber [keyOf 2, keyOf 4]
  obtain ⟨ids, rest, ⟨ofAddress, ofKey, hids⟩, hrest, rfl⟩ := List.forall₂_cons_left_iff.mp hfound
  obtain ⟨others, none, -, hnone, rfl⟩ := List.forall₂_cons_left_iff.mp hrest
  obtain rfl := List.forall₂_nil_left_iff.mp hnone
  have hkind : ∀ a ∈ ofAddress, a.id.is .account = true := by
    intro a ha
    have hlisting := Ledger.accounts_listing (Ledger.keyed_after twoKeyHolders) fun _ => True
    have hin := (hlisting.exact a).mpr ⟨((hids.addressListing.exact a).mp ha).1, trivial⟩
    have hall : ∀ c ∈ l.accounts.filter (fun _ => decide True), c.id.is .account = true := by decide +kernel
    exact hall a hin
  have htwice {a : Account} (hheld : l.find? a.id = some (.account a)) (hlists : a.Lists (keyOf 2)) :
      ids.count a.accountId = 2 := by
    have hin : a ∈ ofAddress := hids.part.subset ((hids.keyListing.exact a).mpr ⟨hheld, hlists⟩)
    rw [(hids.numbers hkind).2 a hin, hids.twice a hheld hlists]
  have hfive : ids.count ⟨5⟩ = 2 :=
    @htwice (keyHolder 5 [keyOf 2] [keyOf 3, keyOf 2, keyOf 2]) (by decide +kernel) (.inl (by decide))
  have hseven : ids.count ⟨7⟩ = 2 :=
    @htwice (keyHolder 7 [keyOf 2] []) (by decide +kernel) (.inl (by decide))
  have hin : ⟨7⟩ ∈ ids := List.count_pos_iff.mp (hseven ▸ Nat.two_pos)
  obtain ⟨hkeys, haccounts⟩ := hwatched rfl
  exact ⟨ids, others, s', rfl, hserve, hfive, hseven, (hkeys (keyOf 4) (by decide)).1,
    haccounts ids List.mem_cons_self ⟨7⟩ hin⟩

end Subscriptions

end LedgerWatch
