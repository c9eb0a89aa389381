/-
  LedgerWatch.Proofs.Subscriptions.Actions — subscriptions as a function of their past.

  An `Action` is one thing done to a session's subscriptions; what is only asked of them
  (`watches`, `meets`, `marketCallback?`) leaves no trace and is not listed. Some actions
  install: an accepted `install`, and those that take the update callback back, which
  install none. `installed` is what the last of them put in place and `sinceInstall` the
  actions after it.

  - `act_installs`, `act_keeps`: an action that installs starts over; any other reaches
    the update side only as an item armed or an account followed.
  - `update_after`: the filter is a new one with the items armed since.
  - `follows_after`: the accounts followed are the first ones asked for since, as many as
    the cap allows.
  - `state_since_install`: so the update side is a function of what came since the last
    install, and of nothing before it.
-/

import LedgerWatch.Subscriptions
import Mathlib.Data.List.Induction

namespace LedgerWatch

/-- One thing done to the subscriptions of a session. -/
inductive Action where
  | install (callback : Option Callback) (notifyAll : Bool)
  | uninstall
  | setPending (callback : Option Callback)
  | setBlock (callback : Option Callback)
  | subscribeMarket (callback : Callback) (a b : AssetId)
  | unsubscribeMarket (a b : AssetId)
  | cancel
  | tearDown
  | arm (item : Watchable)
  | follow (account : AccountId)

namespace Action

/-- The callback and the flag an action puts in place, if it does. -/
def installs? (settings : Settings) : Action → Option (Option Callback × Bool)
  | .install callback notifyAll => if notifyAll && !settings.subscribeToAll then none else some (callback, notifyAll)
  | .uninstall | .cancel | .tearDown => some (none, false)
  | _ => none

def armed? : Action → Option Watchable
  | .arm item => some item
  | _ => none

def followed? : Action → Option AccountId
  | .follow account => some account
  | _ => none

end Action

/-- A new filter with items put into it one after the other. -/
def BloomFilter.filled (s : FilterSettings) (items : List Watchable) : BloomFilter :=
  items.foldl (fun f item => f.insert item.bytes) (.ofSettings s)

namespace Subscriptions

def act (s : Subscriptions) : Action → Subscriptions
  | .install callback notifyAll =>
    match s.install callback notifyAll with
    | .ok s' => s'
    | .error _ => s
  | .uninstall => s.uninstall
  | .setPending callback => s.setPending callback
  | .setBlock callback => s.setBlock callback
  | .subscribeMarket callback a b =>
    match s.subscribeMarket callback a b with
    | .ok (_, s') => s'
    | .error _ => s
  | .unsubscribeMarket a b =>
    match s.unsubscribeMarket a b with
    | .ok (_, s') => s'
    | .error _ => s
  | .cancel => s.cancel
  | .tearDown => s.tearDown
  | .arm item => (s.arm item).2
  | .follow account => (s.follow account).2

def after (s : Subscriptions) (acts : List Action) : Subscriptions := acts.foldl act s

/-- What was installed last; nothing is before anything was. -/
def installed (settings : Settings) (acts : List Action) : Option Callback × Bool :=
  (acts.reverse.findSome? (Action.installs? settings)).getD (none, false)

/-- The actions behind the last one that installed. -/
def sinceInstall (settings : Settings) (acts : List Action) : List Action :=
  (acts.reverse.takeWhile fun a => (a.installs? settings).isNone).reverse

def armedSince (settings : Settings) (acts : List Action) : List Watchable :=
  (sinceInstall settings acts).filterMap Action.armed?

def followedSince (settings : Settings) (acts : List Action) : List AccountId :=
  (sinceInstall settings acts).filterMap Action.followed?

/-! ## One action -/

@[simp] theorem settings_act (s : Subscriptions) (a : Action) : (s.act a).settings = s.settings := by
  cases a with
  | install callback notifyAll =>
    simp only [act, install]
    cases notifyAll && !s.settings.subscribeToAll <;> rfl
  | subscribeMarket callback a b =>
    simp only [act, subscribeMarket]
    cases Market.between a b <;> rfl
  | unsubscribeMarket a b =>
    simp only [act, unsubscribeMarket]
    cases Market.between a b <;> rfl
  | arm item => simp only [act, arm_snd]
  | follow account => simp only [act, follow]; split; rfl; split <;> rfl
  | _ => rfl

theorem act_installs {s : Subscriptions} {a : Action} {callback : Option Callback} {notifyAll : Bool}
    (h : a.installs? s.settings = some (callback, notifyAll)) :
    (s.act a).update = callback.map (fun c => ⟨c, .ofSettings s.settings.filter⟩) ∧
      (s.act a).notifyAll = notifyAll ∧ (s.act a).followed = .empty := by
  cases a with
  | install callback' notifyAll' =>
    simp only [Action.installs?] at h
    split at h
    · cases h
    · rename_i hc
      cases h
      simp only [act, install, hc, reset]
      exact ⟨rfl, rfl, rfl⟩
  | uninstall | cancel | tearDown => cases h; exact ⟨rfl, rfl, rfl⟩
  | setPending | setBlock | subscribeMarket | unsubscribeMarket | arm | follow => cases h

theorem act_keeps {s : Subscriptions} {a : Action} (h : a.installs? s.settings = none) :
    (s.act a).update = (match a.armed? with | some item => (s.arm item).2.update | none => s.update) ∧
      (s.act a).notifyAll = s.notifyAll ∧
      (s.act a).followed = (match a.followed? with | some account => (s.follow account).2.followed | none => s.followed) := by
  cases a with
  | install callback notifyAll =>
    simp only [Action.installs?] at h
    split at h
    · rename_i hc
      simp only [act, install, hc]
      exact ⟨rfl, rfl, rfl⟩
    · cases h
  | uninstall | cancel | tearDown => cases h
  | setPending | setBlock => exact ⟨rfl, rfl, rfl⟩
  | subscribeMarket callback a b =>
    simp only [act, subscribeMarket]
    cases Market.between a b <;> exact ⟨rfl, rfl, rfl⟩
  | unsubscribeMarket a b =>
    simp only [act, unsubscribeMarket]
    cases Market.between a b <;> exact ⟨rfl, rfl, rfl⟩
  | arm item => simp only [act, arm_snd, Action.armed?, Action.followed?, and_self]
  | follow account =>
    refine ⟨?_, ?_, rfl⟩ <;> simp only [act, follow, Action.armed?]
    · split; rfl; split <;> rfl
    · split; rfl; split <;> rfl

/-! ## What was installed, and what came since -/

@[simp] theorem after_nil (s : Subscriptions) : s.after [] = s := rfl

@[simp] theorem after_cons (s : Subscriptions) (a : Action) (as : List Action) : s.after (a :: as) = (s.act a).after as :=
  rfl

theorem after_append (s : Subscriptions) (as bs : List Action) : s.after (as ++ bs) = (s.after as).after bs :=
  List.foldl_append ..

@[simp] theorem after_snoc (s : Subscriptions) (acts : List Action) (a : Action) :
    s.after (acts ++ [a]) = (s.after acts).act a := by
  simp [after]

@[simp] theorem settings_after (s : Subscriptions) (acts : List Action) : (s.after acts).settings = s.settings := by
  induction acts using List.reverseRecOn with
  | nil => rfl
  | append_singleton acts a ih => rw [after_snoc, settings_act, ih]

variable (settings : Settings)

theorem since_snoc_installs {a : Action} {i : Option Callback × Bool} (h : a.installs? settings = some i)
    (acts : List Action) :
    installed settings (acts ++ [a]) = i ∧ sinceInstall settings (acts ++ [a]) = [] := by
  simp [installed, sinceInstall, h]

theorem since_append_keeps {later : List Action} (h : ∀ a ∈ later, a.installs? settings = none) (acts : List Action) :
    installed settings (acts ++ later) = installed settings acts ∧
      sinceInstall settings (acts ++ later) = sinceInstall settings acts ++ later := by
  have hn : later.reverse.findSome? (Action.installs? settings) = none :=
    List.findSome?_eq_none_iff.mpr fun a ha => h a (List.mem_reverse.mp ha)
  have hw : ∀ a ∈ later.reverse, (a.installs? settings).isNone = true := fun a ha => by
    rw [h a (List.mem_reverse.mp ha)]; rfl
  refine ⟨?_, ?_⟩
  · rw [installed, List.reverse_append, List.findSome?_append, hn]; rfl
  · rw [sinceInstall, List.reverse_append, List.takeWhile_append_of_pos hw, List.reverse_append, List.reverse_reverse,
      ← sinceInstall]

theorem since_snoc_keeps {a : Action} (h : a.installs? settings = none) (acts : List Action) :
    installed settings (acts ++ [a]) = installed settings acts ∧
      sinceInstall settings (acts ++ [a]) = sinceInstall settings acts ++ [a] :=
  since_append_keeps settings (by simpa using h) acts

theorem armedSince_snoc {a : Action} (h : a.installs? settings = none) (acts : List Action) :
    armedSince settings (acts ++ [a]) = armedSince settings acts ++ a.armed?.toList := by
  rw [armedSince, (since_snoc_keeps settings h acts).2, List.filterMap_append]
  cases a <;> rfl

theorem followedSince_append {later : List Action} (h : ∀ a ∈ later, a.installs? settings = none)
    (acts : List Action) :
    followedSince settings (acts ++ later) = followedSince settings acts ++ later.filterMap Action.followed? := by
  rw [followedSince, (since_append_keeps settings h acts).2, List.filterMap_append, ← followedSince]

theorem followedSince_snoc {a : Action} (h : a.installs? settings = none) (acts : List Action) :
    followedSince settings (acts ++ [a]) = followedSince settings acts ++ a.followed?.toList := by
  rw [followedSince_append settings (by simpa using h)]
  cases a <;> rfl

/-! ## The filter -/

theorem filled_snoc (s : FilterSettings) (items : List Watchable) (item : Watchable) :
    BloomFilter.filled s (items ++ [item]) = (BloomFilter.filled s items).insert item.bytes := by
  simp [BloomFilter.filled]

theorem inserted_filled (s : FilterSettings) (items : List Watchable) :
    (BloomFilter.filled s items).inserted = items.length := by
  induction items using List.reverseRecOn with
  | nil => rfl
  | append_singleton items item ih =>
    rw [filled_snoc, List.length_append, ← ih]
    rfl

/-- The subscription is the callback installed last, with the items armed since in its filter. -/
theorem update_after (acts : List Action) :
    ((new settings).after acts).update =
      (installed settings acts).1.map fun c => ⟨c, .filled settings.filter (armedSince settings acts)⟩ := by
  induction acts using List.reverseRecOn with
  | nil => rfl
  | append_singleton acts a ih =>
    have hs : ((new settings).after acts).settings = settings := settings_after _ _
    rw [after_snoc]
    cases h : a.installs? settings with
    | some i =>
      obtain ⟨callback, notifyAll⟩ := i
      obtain ⟨hi, hl⟩ := since_snoc_installs settings h acts
      rw [(act_installs (by rw [hs]; exact h)).1, hi, armedSince, hl, hs]
      rfl
    | none =>
      rw [(act_keeps (by rw [hs]; exact h)).1, (since_snoc_keeps settings h acts).1, armedSince_snoc settings h]
      cases ha : a.armed? with
      | none => simp only [ih, Option.toList_none, List.append_nil]
      | some item =>
        simp only [arm_snd, ih, Option.toList_some, filled_snoc, Option.map_map]
        rfl

theorem notifyAll_after (acts : List Action) :
    ((new settings).after acts).notifyAll = (installed settings acts).2 := by
  induction acts using List.reverseRecOn with
  | nil => rfl
  | append_singleton acts a ih =>
    have hs : ((new settings).after acts).settings = settings := settings_after _ _
    rw [after_snoc]
    cases h : a.installs? settings with
    | some i =>
      rw [(act_installs (by rw [hs]; exact h)).2.1, (since_snoc_installs settings h acts).1]
    | none =>
      rw [(act_keeps (by rw [hs]; exact h)).2.1, (since_snoc_keeps settings h acts).1, ih]

/-- The flag is never installed where the node does not allow it. -/
theorem installed_allowed (acts : List Action) (h : (installed settings acts).2 = true) :
    settings.subscribeToAll = true := by
  induction acts using List.reverseRecOn with
  | nil => cases h
  | append_singleton acts a ih =>
    cases hi : a.installs? settings with
    | none => exact ih ((since_snoc_keeps settings hi acts).1 ▸ h)
    | some i =>
      rw [(since_snoc_installs settings hi acts).1] at h
      cases a with
      | install callback notifyAll =>
        simp only [Action.installs?] at hi
        split at hi
        · cases hi
        · rename_i hc
          cases hi
          have hn : notifyAll = true := h
          simpa [hn] using hc
      | uninstall | cancel | tearDown => cases hi; cases h
      | setPending | setBlock | subscribeMarket | unsubscribeMarket | arm | follow => cases hi

/-! ## The accounts followed -/

/-- The first accounts of a list, each once, as many as the cap allows. -/
def firstUpTo (cap : Nat) (accounts : List AccountId) : List AccountId := accounts.eraseDups.take cap

theorem eraseDups_snoc (accounts : List AccountId) (a : AccountId) :
    (accounts ++ [a]).eraseDups = if a ∈ accounts then accounts.eraseDups else accounts.eraseDups ++ [a] := by
  rw [List.eraseDups_append]
  by_cases h : a ∈ accounts <;> simp [h, List.removeAll, List.eraseDups_cons]

theorem firstUpTo_snoc (cap : Nat) (accounts : List AccountId) (a : AccountId) :
    firstUpTo cap (accounts ++ [a]) =
      if a ∈ firstUpTo cap accounts ∨ cap ≤ (firstUpTo cap accounts).length then firstUpTo cap accounts
      else firstUpTo cap accounts ++ [a] := by
  unfold firstUpTo
  rw [eraseDups_snoc]
  by_cases hm : a ∈ accounts.eraseDups.take cap
  · rw [if_pos (Or.inl hm), if_pos (List.mem_eraseDups.mp (List.mem_of_mem_take hm))]
  by_cases hc : cap ≤ (accounts.eraseDups.take cap).length
  · -- the cap is reached, so whatever stands behind it is cut off
    rw [if_pos (Or.inr hc)]
    rw [List.length_take] at hc
    split
    · rfl
    · exact List.take_append_of_le_length (by omega)
  · -- below the cap nothing is cut off, so the account is not among the earlier ones
    rw [if_neg (not_or.mpr ⟨hm, hc⟩)]
    rw [List.length_take] at hc
    have hall : accounts.eraseDups.take cap = accounts.eraseDups := List.take_of_length_le (by omega)
    rw [hall, List.mem_eraseDups] at hm
    rw [hall, if_neg hm]
    exact List.take_of_length_le (by rw [List.length_append, List.length_singleton]; omega)

theorem firstUpTo_eq_nil_iff {cap : Nat} {accounts : List AccountId} :
    firstUpTo cap accounts = [] ↔ cap = 0 ∨ accounts = [] := by
  rw [firstUpTo, List.take_eq_nil_iff]
  cases accounts <;> simp [List.eraseDups_cons]

/-- The followed accounts of a session are the accounts of a list, each once. -/
def Follows (followed : SortedSet AccountId) (accounts : List AccountId) : Prop :=
  followed.size = accounts.length ∧ ∀ a, followed.contains a = true ↔ a ∈ accounts

theorem follows_empty (cap : Nat) : Follows .empty (firstUpTo cap []) := by
  simp [Follows, firstUpTo]

theorem follows_follow {s : Subscriptions} {cap : Nat} {accounts : List AccountId}
    (hs : s.settings.maxFollowed = cap) (h : Follows s.followed (firstUpTo cap accounts)) (a : AccountId) :
    Follows (s.follow a).2.followed (firstUpTo cap (accounts ++ [a])) := by
  subst hs
  obtain ⟨hsize, hmem⟩ := h
  rw [firstUpTo_snoc]
  unfold follow
  split
  · rename_i hc
    rw [if_pos (Or.inl ((hmem a).mp hc))]
    exact ⟨hsize, hmem⟩
  · rename_i hc
    split
    · rename_i hcap
      rw [if_pos (Or.inr (by omega))]
      exact ⟨hsize, hmem⟩
    · rename_i hcap
      have hnew : a ∉ firstUpTo s.settings.maxFollowed accounts := fun h => hc ((hmem a).mpr h)
      rw [if_neg (by rw [not_or]; exact ⟨hnew, by omega⟩)]
      refine ⟨?_, fun b => ?_⟩
      · rw [SortedMap.size_insert () (by simpa using hc), hsize, List.length_append, List.length_singleton]
      · rw [SortedMap.contains_insert, hmem, List.mem_append, List.mem_singleton, Or.comm, eq_comm]

/-- The accounts followed are the first ones asked for since the last install. -/
theorem follows_after (acts : List Action) :
    Follows ((new settings).after acts).followed (firstUpTo settings.maxFollowed (followedSince settings acts)) := by
  induction acts using List.reverseRecOn with
  | nil => exact follows_empty _
  | append_singleton acts a ih =>
    have hs : ((new settings).after acts).settings = settings := settings_after _ _
    rw [after_snoc]
    cases h : a.installs? settings with
    | some i =>
      rw [(act_installs (by rw [hs]; exact h)).2.2, followedSince, (since_snoc_installs settings h acts).2]
      exact follows_empty _
    | none =>
      rw [(act_keeps (by rw [hs]; exact h)).2.2, followedSince_snoc settings h]
      cases ha : a.followed? with
      | none => simpa only [Option.toList_none, List.append_nil] using ih
      | some account => exact follows_follow (by rw [hs]) ih account

theorem follow_fst_iff (s : Subscriptions) (a : AccountId) :
    (s.follow a).1 = true ↔ (s.follow a).2.followed.contains a = true := by
  unfold follow
  split
  · simp [*]
  · split
    · simp [*]
    · simp [SortedMap.contains_insert]

/-! ## The whole state -/

/-- The update side of the subscriptions is what the last install and the actions since make it. -/
theorem state_since_install (acts : List Action) :
    let s := (new settings).after acts
    let callback := (installed settings acts).1
    let items := armedSince settings acts
    let accounts := firstUpTo settings.maxFollowed (followedSince settings acts)
    s.update.map (·.callback) = callback ∧
      s.notifyAll = (installed settings acts).2 ∧ (s.notifyAll && !settings.subscribeToAll) = false ∧
      (match callback with
      | none => (∀ x, s.watches x = false ∧ s.arm x = (false, s)) ∧ s.armed = 0
      | some _ =>
        (∀ x, s.watches x = (BloomFilter.filled settings.filter items).contains x.bytes ∧ (s.arm x).1 = true) ∧
          s.armed = items.length) ∧
      (∀ a, s.followed.contains a = true ↔ a ∈ accounts) ∧ s.followed.size = accounts.length ∧
      accounts.length ≤ settings.maxFollowed ∧
      ∀ a, (s.follow a).1 = true ↔ (s.follow a).2.followed.contains a = true := by
  intro s callback items accounts
  have hu : s.update = callback.map fun c => ⟨c, .filled settings.filter items⟩ := update_after settings acts
  have hn : s.notifyAll = (installed settings acts).2 := notifyAll_after settings acts
  obtain ⟨hsize, hmem⟩ := follows_after settings acts
  refine ⟨?_, hn, ?_, ?_, hmem, hsize, List.length_take_le _ _, fun a => follow_fst_iff s a⟩
  · rw [hu, Option.map_map]
    exact Option.map_id_fun ▸ rfl
  · cases ha : s.notifyAll
    · rfl
    · rw [installed_allowed settings acts (hn ▸ ha)]; rfl
  · cases hc : callback with
    | none =>
      rw [hc, Option.map_none] at hu
      exact ⟨fun x => ⟨by simp [watches, hu], by simp [arm, hu]⟩, by simp [armed, hu]⟩
    | some c =>
      rw [hc, Option.map_some] at hu
      refine ⟨fun x => ⟨by simp [watches, hu], by simp [isSubscribed, hu]⟩, ?_⟩
      rw [← inserted_filled settings.filter items]
      simp [armed, hu]

end Subscriptions

end LedgerWatch
