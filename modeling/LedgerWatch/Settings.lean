/-
  LedgerWatch.Settings — how a node is set up for its subscribers.

  A setting is checked as a whole and the first fault is told: the filter's before the
  delivery's, and within each in the order of its fields.
-/

import LedgerWatch.Bloom.Filter
import LedgerWatch.Error
import LedgerWatch.Wire

namespace LedgerWatch

/-- What a subscriber's membership filter is made for. -/
structure FilterSettings where
  elements : Nat
  rate : Float
  maxBits : Nat
  deriving DecidableEq

/-- Workers, each with a queue of its own. -/
structure DeliverySettings where
  workers : Nat
  /-- Batches a queue holds. -/
  capacity : Nat
  deriving DecidableEq

structure Settings where
  /-- Whether a subscriber may ask for everything that is created or removed. -/
  subscribeToAll : Bool
  filter : FilterSettings
  /-- How many accounts a subscriber may follow. -/
  maxFollowed : Nat
  delivery : DeliverySettings
  deriving DecidableEq

namespace FilterSettings

def standard : FilterSettings := ⟨10000, 0.01, 131072⟩

def check (s : FilterSettings) : Except FilterError Unit :=
  if s.elements = 0 then .error (.parameters "projected_element_count cannot be 0")
  else if !(s.rate > 0 && s.rate < 1) then .error (.outOfRange s.rate)
  else if s.maxBits = 0 then .error (.parameters "maximum_size_bits cannot be 0")
  else .ok ()

def sizing (s : FilterSettings) : Bloom.Sizing := Bloom.capped s.elements s.rate s.maxBits

end FilterSettings

def BloomFilter.ofSettings (s : FilterSettings) : BloomFilter := .ofSizing s.sizing

namespace DeliverySettings

def standard : DeliverySettings := ⟨2, 1024⟩

def check (s : DeliverySettings) : Except NotifyError Unit :=
  if s.workers = 0 then .error (.invalidConfig "delivery workers cannot be 0")
  else if s.capacity = 0 then .error (.invalidConfig "delivery queue capacity cannot be 0")
  else .ok ()

end DeliverySettings

namespace Settings

def standard : Settings := ⟨false, .standard, 100, .standard⟩

def check (s : Settings) : Except NotifyError Unit :=
  match s.filter.check with
  | .error e => .error (.filter e)
  | .ok () => s.delivery.check

end Settings

instance : Wire FilterSettings where
  toJson s := .obj [("projected_element_count", toJson s.elements), ("false_positive_rate", toJson s.rate),
    ("maximum_size_bits", toJson s.maxBits)]
  ofJson? src j := do
    let [elements, rate, maxBits] ←
      j.fields? ["projected_element_count", "false_positive_rate", "maximum_size_bits"] | none
    return ⟨← ofJson? src elements, ← ofJson? src rate, ← ofJson? src maxBits⟩

instance : Wire DeliverySettings where
  toJson s := .obj [("workers", toJson s.workers), ("queue_capacity", toJson s.capacity)]
  ofJson? src j := do
    let [workers, capacity] ← j.fields? ["workers", "queue_capacity"] | none
    return ⟨← ofJson? src workers, ← ofJson? src capacity⟩

instance : Wire Settings where
  toJson s := .obj [("enable_subscribe_to_all", toJson s.subscribeToAll), ("filter", toJson s.filter),
    ("max_tracked_accounts", toJson s.maxFollowed), ("delivery", toJson s.delivery)]
  ofJson? src j := do
    let [subscribeToAll, filter, maxFollowed, delivery] ←
      j.fields? ["enable_subscribe_to_all", "filter", "max_tracked_accounts", "delivery"] | none
    return ⟨← ofJson? src subscribeToAll, ← ofJson? src filter, ← ofJson? src maxFollowed, ← ofJson? src delivery⟩

end LedgerWatch
