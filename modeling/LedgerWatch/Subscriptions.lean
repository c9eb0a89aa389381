/-
  LedgerWatch.Subscriptions — what one session has asked for.

  A subscription to updates is a callback with a membership filter of its own; installing
  another one, or none, starts over with an empty filter and nobody followed. Market
  subscriptions are one callback for each market and are not touched by that, nor are the
  callbacks for pending transactions and applied blocks.

  - `followed` holds the accounts whose every change is of interest, up to a cap. It is
    emptied with the filter but may be filled without one.
-/

import LedgerWatch.Delivery.Batch
import LedgerWatch.Market
import LedgerWatch.Settings
import LedgerWatch.Watchable

namespace LedgerWatch

/-- The market of two assets, if they are two. -/
def Market.between (a b : AssetId) : Except NotifyError Market :=
  if (Market.of a b).isDegenerate then .error (.sameAssetMarket a) else .ok (.of a b)

/-- A callback and what it is to be called for. -/
structure UpdateSubscription where
  callback : Callback
  filter : BloomFilter

structure Subscriptions where
  settings : Settings
  update : Option UpdateSubscription
  /-- Everything created or removed is of interest. -/
  notifyAll : Bool
  followed : SortedSet AccountId
  pending : Option Callback
  block : Option Callback
  markets : SortedMap Market Callback

namespace Subscriptions

def new (settings : Settings) : Subscriptions := ⟨settings, none, false, .empty, none, none, .empty⟩

/-! ## Subscribing -/

def isSubscribed (s : Subscriptions) : Bool := s.update.isSome

/-- A fresh start for updates. -/
def reset (s : Subscriptions) (callback : Option Callback) (notifyAll : Bool) : Subscriptions :=
  { s with
    update := callback.map fun c => ⟨c, .ofSettings s.settings.filter⟩
    notifyAll := notifyAll
    followed := .empty }

def install (s : Subscriptions) (callback : Option Callback) (notifyAll : Bool) : Except NotifyError Subscriptions :=
  if notifyAll && !s.settings.subscribeToAll then .error .subscribeToAllDisabled
  else .ok (s.reset callback notifyAll)

def uninstall (s : Subscriptions) : Subscriptions := s.reset none false

def setPending (s : Subscriptions) (callback : Option Callback) : Subscriptions := { s with pending := callback }

def setBlock (s : Subscriptions) (callback : Option Callback) : Subscriptions := { s with block := callback }

def subscribeMarket (s : Subscriptions) (callback : Callback) (a b : AssetId) :
    Except NotifyError (Market × Subscriptions) :=
  (Market.between a b).map fun m => (m, { s with markets := s.markets.insert m callback })

/-- Whether there was a subscription. -/
def unsubscribeMarket (s : Subscriptions) (a b : AssetId) : Except NotifyError (Bool × Subscriptions) :=
  (Market.between a b).map fun m => (s.markets.contains m, { s with markets := s.markets.erase m })

def marketCallback? (s : Subscriptions) (m : Market) : Option Callback := s.markets.get? m

def hasMarkets (s : Subscriptions) : Bool := !s.markets.isEmpty

/-- Neither updates nor markets. -/
def cancel (s : Subscriptions) : Subscriptions := { s.uninstall with markets := .empty }

/-- Nothing at all. -/
def tearDown (s : Subscriptions) : Subscriptions := { s.cancel with pending := none, block := none }

/-! ## Interest -/

/-- Puts an item into the filter, if there is one: whether there is. -/
def arm (s : Subscriptions) (item : Watchable) : Bool × Subscriptions :=
  match s.update with
  | some u => (true, { s with update := some { u with filter := u.filter.insert item.bytes } })
  | none => (false, s)

@[simp] theorem arm_fst (s : Subscriptions) (item : Watchable) : (s.arm item).1 = s.isSubscribed := by
  simp only [arm, isSubscribed]; split <;> simp [*]

@[simp] theorem arm_snd (s : Subscriptions) (item : Watchable) :
    (s.arm item).2 = { s with update := s.update.map fun u => { u with filter := u.filter.insert item.bytes } } := by
  simp only [arm]; split <;> rename_i h
  · rw [h]; rfl
  · cases s; cases h; rfl

def armAll (s : Subscriptions) (items : List Watchable) : Subscriptions := items.foldl (fun s item => (s.arm item).2) s

/-- Items armed since the filter was made, repeated ones too. -/
def armed (s : Subscriptions) : Nat := (s.update.map (·.filter.inserted)).getD 0

def watches (s : Subscriptions) (item : Watchable) : Bool :=
  (s.update.map (·.filter.contains item.bytes)).getD false

/-- Whether the account is followed afterwards: it is unless it is new and there are enough. -/
def follow (s : Subscriptions) (a : AccountId) : Bool × Subscriptions :=
  if s.followed.contains a then (true, s)
  else if s.settings.maxFollowed ≤ s.followed.size then (false, s)
  else (true, { s with followed := s.followed.insert a () })

/-- Whether a followed account is among the impacted ones. The smaller set is walked. -/
def meets (s : Subscriptions) (impacted : SortedSet AccountId) : Bool :=
  if impacted.isEmpty || s.followed.isEmpty then false
  else if impacted.size ≤ s.followed.size then impacted.keys.any s.followed.contains
  else s.followed.keys.any impacted.contains

end Subscriptions

end LedgerWatch
