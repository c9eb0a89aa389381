/-
  LedgerWatch.Proofs.Session.Armed — the objects a session has asked for.

  Six queries take an interest in objects (`Request.objects`): by the ids they were
  given, or by those the ledger answered with. The interest lasts until the next accepted
  subscription, whose filter is empty (`armedBy`).

  - `objects_armed`: each object is armed by the query, under the key it is watched by.
  - `watchesAll_serve`: while there is a callback, whatever was asked for is watched, and
    no other request of the session undoes it.
-/

import LedgerWatch.Proofs.Session.Enlisted
import LedgerWatch.Proofs.Subscriptions.Interest

namespace LedgerWatch

open Subscriptions in
/-- The ids of objects a query takes an interest in. Of full accounts it is those that are followed then. -/
def Request.objects (l : Ledger) (s : Subscriptions) : Request → List ObjectId
  | .getObjects ids => ids.filter (!isHistory ·)
  | .getAccounts ids => (ids.filter fun id => (l.account? id).isSome).map AccountId.objectId
  | .getAssets ids => (ids.filter fun id => (l.asset? id).isSome).map AssetId.objectId
  | .getFullAccounts keys true =>
    ((l.resolved keys).filter (s.serve l (.getFullAccounts keys true)).2.followed.contains).map AccountId.objectId
  | .lookupAccounts lower limit =>
    if maxLookup < limit then []
    else
      match l.accountsFrom lower limit with
      | [only] => [only.accountId.objectId]
      | _ => []
  | .getKeyReferences keys => (keys.map (references l)).flatten.map AccountId.objectId
  | _ => []

namespace Subscriptions

/-- The objects a session has asked for since its last accepted subscription, after one more request. -/
def armedBy (l : Ledger) (s : Subscriptions) (ids : List ObjectId) : Request → List ObjectId
  | .subscribe callback notifyAll =>
    match s.install (some callback) notifyAll with
    | .ok _ => []
    | .error _ => ids
  | r => ids ++ r.objects l s

/-- With a callback, the session is told of each of these objects. -/
def WatchesAll (s : Subscriptions) (ids : List ObjectId) : Prop :=
  s.isSubscribed = true → ∀ id ∈ ids, s.watches (.object id) = true

/-! ## What is asked for is armed -/

theorem objects_armed {l : Ledger} {s : Subscriptions} {r : Request} {id : ObjectId} (h : id ∈ r.objects l s) :
    r.isQuery = true ∧ ∃ item ∈ r.arms l s (s.serve l r).1, item.bytes = (Watchable.object id).bytes := by
  cases r with
  | getObjects ids =>
    simp only [Request.objects, not_isHistory] at h
    exact ⟨rfl, .object id, List.mem_map_of_mem h, rfl⟩
  | getAccounts ids =>
    obtain ⟨a, ha, rfl⟩ := List.mem_map.mp h
    simp only [Ledger.account?_isSome] at ha
    exact ⟨rfl, .account a, List.mem_map_of_mem ha, rfl⟩
  | getAssets ids =>
    obtain ⟨a, ha, rfl⟩ := List.mem_map.mp h
    simp only [Ledger.asset?_isSome] at ha
    exact ⟨rfl, .asset a, List.mem_map_of_mem ha, rfl⟩
  | getFullAccounts keys subscribe =>
    cases subscribe with
    | false => contradiction
    | true =>
      obtain ⟨a, ha, rfl⟩ := List.mem_map.mp h
      obtain ⟨hin, hfollowed⟩ := List.mem_filter.mp ha
      rw [serve_query l s rfl] at hfollowed
      refine ⟨rfl, .account a, List.mem_map_of_mem (List.mem_filter.mpr ⟨hin, ?_⟩), rfl⟩
      exact (admits_iff s _ a _).mpr hfollowed
  | lookupAccounts lower limit =>
    by_cases hlimit : maxLookup < limit
    · simp only [Request.objects, hlimit, if_true] at h
      contradiction
    simp only [Request.objects, hlimit, if_false] at h
    cases hfound : l.accountsFrom lower limit with
    | nil => rw [hfound] at h; contradiction
    | cons only rest =>
      cases rest with
      | cons b rest => rw [hfound] at h; contradiction
      | nil =>
        rw [hfound] at h
        rw [List.mem_singleton.mp h]
        refine ⟨rfl, .account only.accountId, ?_, rfl⟩
        simp only [Request.arms, hfound, if_pos (Nat.not_lt.mp hlimit)]
        exact List.mem_singleton.mpr rfl
  | getKeyReferences keys =>
    obtain ⟨a, ha, rfl⟩ := List.mem_map.mp h
    exact ⟨rfl, .account a, List.mem_append_right _ (List.mem_map_of_mem ha), rfl⟩
  | getBalances addresses => contradiction
  | subscribe | unsubscribeAll | subscribePending | subscribeBlocks | subscribeMarket | unsubscribeMarket => contradiction

theorem mem_armedBy {l : Ledger} {s : Subscriptions} {ids : List ObjectId} {r : Request} {id : ObjectId}
    (h : id ∈ s.armedBy l ids r) : id ∈ ids ∨ id ∈ r.objects l s := by
  cases r with
  | subscribe callback notifyAll =>
    simp only [armedBy] at h
    split at h
    · contradiction
    · exact .inl h
  | unsubscribeAll | subscribePending | subscribeBlocks | subscribeMarket | unsubscribeMarket | getObjects
  | getAccounts | getFullAccounts | lookupAccounts | getAssets | getKeyReferences | getBalances =>
    exact List.mem_append.mp h

/-! ## What is armed is watched -/

theorem isSubscribed_after {s : Subscriptions} {acts : List Action} (h : ∀ a ∈ acts, a.installs? s.settings = none) :
    (s.after acts).isSubscribed = s.isSubscribed := by
  induction acts generalizing s with
  | nil => rfl
  | cons a acts ih =>
    have hrest : ∀ b ∈ acts, b.installs? (s.act a).settings = none := by
      intro b hb
      rw [settings_act]
      exact h b (List.mem_cons_of_mem _ hb)
    rw [after_cons, ih hrest]
    exact isSubscribed_act (h a List.mem_cons_self)

theorem watchesAll_serve {s : Subscriptions} {ids : List ObjectId} (h : s.WatchesAll ids) (l : Ledger) (r : Request) :
    (s.serve l r).2.WatchesAll (s.armedBy l ids r) := by
  intro hs id hid
  cases hr : (Turn.request l r).installs s.settings with
  | false =>
    rcases mem_armedBy hid with hid | hid
    · have hkeeps : ∀ a ∈ s.actions l r, a.installs? s.settings = none := turnActions_keeps hr s
      rw [serve_eq_after] at hs ⊢
      rw [isSubscribed_after hkeeps] at hs
      exact watches_after hkeeps (h hs id hid)
    · obtain ⟨hquery, item, hitem, hbytes⟩ := objects_armed hid
      rw [serve_query l s hquery] at hs ⊢
      rw [isSubscribed_enlisted] at hs
      rw [← watches_congr hbytes]
      exact watches_enlisted hs (.inl hitem) _
  | true =>
    cases r with
    | unsubscribeAll => contradiction
    | subscribe callback notifyAll =>
      -- accepted, so nothing has been asked for since
      have hok : s.install (some callback) notifyAll = .ok (s.reset (some callback) notifyAll) := by
        simp only [Turn.installs] at hr
        rw [install, if_neg]
        cases notifyAll <;> simp_all
      simp only [armedBy, hok] at hid
      contradiction
    | subscribePending | subscribeBlocks | subscribeMarket | unsubscribeMarket | getObjects | getAccounts
    | getFullAccounts | lookupAccounts | getAssets | getKeyReferences | getBalances => contradiction

end Subscriptions

end LedgerWatch
