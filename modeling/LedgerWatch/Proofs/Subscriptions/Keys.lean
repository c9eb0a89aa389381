/-
  LedgerWatch.Proofs.Subscriptions.Keys — keys tell apart what is watched.

  The key of an item is a letter for its sort and then as many bytes as the sort has. An
  id of an account or an asset has the key of the object id it stands for, so to arm the
  one is to arm the other. Apart from that items that differ have keys that differ
  (`bytes_eq_iff`): the letter tells the sorts apart, the bytes behind it the items of one.

  A filter can still take an item for others, but only by its positions: each of them has
  to be a position of some other key that was armed (`covered_of_watched`).
-/

import LedgerWatch.Proofs.Bloom.Contents
import LedgerWatch.Proofs.Bytes.Delimited
import LedgerWatch.Proofs.Subscriptions.Interest

namespace LedgerWatch

namespace Watchable

/-- The object id an item stands for. -/
def objectId? : Watchable → Option ObjectId
  | .object id => some id
  | .account a => some a.objectId
  | .asset a => some a.objectId
  | .key _ | .address _ => none

/-- Both items stand for one object id, or both are one public key or one address. -/
inductive Same : Watchable → Watchable → Prop where
  | object {x y : Watchable} {id : ObjectId} (hx : x.objectId? = some id) (hy : y.objectId? = some id) : Same x y
  | key (k : PublicKey) : Same (.key k) (.key k)
  | address (a : Address) : Same (.address a) (.address a)

/-! ## Keys -/

variable {x y : Watchable}

theorem bytes_of_objectId? {id : ObjectId} (h : x.objectId? = some id) : x.bytes = objectKey id := by
  cases x with
  | object | account | asset => exact congrArg objectKey (Option.some.inj h)
  | key | address => contradiction

theorem sort_cases (x : Watchable) : (∃ id, x.objectId? = some id) ∨ (∃ k, x = .key k) ∨ ∃ a, x = .address a := by
  cases x with
  | object | account | asset => exact .inl ⟨_, rfl⟩
  | key k => exact .inr (.inl ⟨k, rfl⟩)
  | address a => exact .inr (.inr ⟨a, rfl⟩)

theorem Same.bytes_eq (h : x.Same y) : x.bytes = y.bytes := by
  cases h with
  | object hx hy => rw [bytes_of_objectId? hx, bytes_of_objectId? hy]
  | key | address => rfl

theorem same_of_bytes_eq (h : x.bytes = y.bytes) : x.Same y := by
  have hhead : x.bytes.head? = y.bytes.head? := congrArg List.head? h
  have htail : x.bytes.tail = y.bytes.tail := congrArg List.tail h
  rcases sort_cases x with ⟨id, hx⟩ | ⟨k, rfl⟩ | ⟨a, rfl⟩
  · rw [bytes_of_objectId? hx] at hhead htail
    rcases sort_cases y with ⟨id', hy⟩ | ⟨k', rfl⟩ | ⟨a', rfl⟩
    · rw [bytes_of_objectId? hy] at htail
      obtain rfl := ObjectId.bytes_inj htail
      exact .object hx hy
    · cases hhead
    · cases hhead
  · rcases sort_cases y with ⟨id', hy⟩ | ⟨k', rfl⟩ | ⟨a', rfl⟩
    · rw [bytes_of_objectId? hy] at hhead
      cases hhead
    · obtain rfl : k = k' := by
        cases k; cases k'
        exact congrArg PublicKey.mk (Octets.ext htail)
      exact .key k
    · cases hhead
  · rcases sort_cases y with ⟨id', hy⟩ | ⟨k', rfl⟩ | ⟨a', rfl⟩
    · rw [bytes_of_objectId? hy] at hhead
      cases hhead
    · cases hhead
    · obtain rfl : a = a' := by
        cases a; cases a'
        exact congrArg Address.mk (Octets.ext htail)
      exact .address a

theorem bytes_eq_iff : x.bytes = y.bytes ↔ x.Same y := ⟨same_of_bytes_eq, Same.bytes_eq⟩

end Watchable

namespace Subscriptions

/-! ## Filters -/

theorem arm_congr {x y : Watchable} (h : x.bytes = y.bytes) (s : Subscriptions) : s.arm x = s.arm y := by
  simp only [arm, h]

theorem watches_armed {s : Subscriptions} {x : Watchable} (h : (s.arm x).1 = true) : (s.arm x).2.watches x = true := by
  rw [arm_fst] at h
  obtain ⟨u, hu⟩ := Option.isSome_iff_exists.mp h
  rw [arm_snd, watches_iff, hu]
  exact ⟨_, rfl, BloomFilter.contains_insert_self _ _⟩

theorem filled_eq_holding (s : FilterSettings) (items : List Watchable) :
    BloomFilter.filled s items = .holding s.sizing.sizeBits s.sizing.hashCount (items.map Watchable.bytes) := by
  rw [BloomFilter.holding, List.foldl_map]
  rfl

/-- What a filter contains, it contains by the positions of the items armed since it was made. -/
theorem covered_of_watched {settings : Settings} {acts : List Action} {u : UpdateSubscription}
    (hu : ((new settings).after acts).update = some u) {x : Watchable}
    (hx : ((new settings).after acts).watches x = true) :
    ∀ i ∈ u.filter.positions x.bytes, ∃ z ∈ armedSince settings acts, i ∈ u.filter.positions z.bytes := by
  obtain ⟨v, hv, hc⟩ := (watches_iff _ x).mp hx
  obtain rfl := Option.some.inj (hu.symm.trans hv)
  rw [update_after] at hu
  obtain ⟨c, -, rfl⟩ := Option.map_eq_some_iff.mp hu
  simp only [filled_eq_holding, BloomFilter.positions_holding] at hc ⊢
  intro i hi
  obtain ⟨e, he, hpos⟩ := (BloomFilter.contains_holding_iff ..).mp hc i hi
  obtain ⟨z, hz, rfl⟩ := List.mem_map.mp he
  exact ⟨z, hz, hpos⟩

/-- The keys of two items are equal exactly when the items are the same thing, and then it makes no difference which of
them is armed. A filter that takes an item for one that was not armed finds all its positions among those of other keys. -/
theorem keys_tell_items (x y : Watchable) :
    (x.bytes = y.bytes ↔ x.Same y) ∧
      (x.Same y → ∀ s : Subscriptions, s.arm x = s.arm y ∧ ((s.arm x).1 = true → (s.arm x).2.watches y = true)) ∧
      ∀ (settings : Settings) (acts : List Action) (u : UpdateSubscription),
        let s := (new settings).after acts
        s.update = some u → s.watches y = true → (∀ z ∈ armedSince settings acts, ¬z.Same y) →
          ∀ i ∈ u.filter.positions y.bytes, ∃ z ∈ armedSince settings acts,
            z.bytes ≠ y.bytes ∧ i ∈ u.filter.positions z.bytes := by
  refine ⟨Watchable.bytes_eq_iff, ?_, ?_⟩
  · intro hsame s
    have harm : s.arm x = s.arm y := arm_congr hsame.bytes_eq s
    refine ⟨harm, fun h => ?_⟩
    rw [harm] at h ⊢
    exact watches_armed h
  · intro settings acts u s hu hy hnone i hi
    obtain ⟨z, hz, hpos⟩ := covered_of_watched hu hy i hi
    exact ⟨z, hz, fun hbytes => hnone z hz (Watchable.same_of_bytes_eq hbytes), hpos⟩

/-- An account is armed and its id, as the ledger tells it, is watched. The asset of that number is something else. -/
theorem keys_tell_items_of_seventeen :
    let account := Watchable.account ⟨17⟩
    let told := Watchable.object ⟨1, 2, 17⟩
    let s := (new .standard).after [.install (some ⟨"a", none⟩) false]
    ObjectId.parse "1.2.17" = .ok ⟨1, 2, 17⟩ ∧ account.bytes = told.bytes ∧ account.bytes ≠ (Watchable.asset ⟨17⟩).bytes ∧
      (s.arm account).2.watches told = true := by
  intro account told s
  have hsame : account.Same told := .object rfl rfl
  have hdiffer : ¬(Watchable.account ⟨17⟩).Same (.asset ⟨17⟩) := by
    intro h
    cases h with
    | object hx hy => exact absurd (hx.trans hy.symm) (by decide)
  obtain ⟨htold, harmed, -⟩ := keys_tell_items account told
  obtain ⟨hasset, -, -⟩ := keys_tell_items account (.asset ⟨17⟩)
  exact ⟨rfl, htold.mpr hsame, fun h => hdiffer (hasset.mp h), (harmed hsame s).2 rfl⟩

end Subscriptions

end LedgerWatch
