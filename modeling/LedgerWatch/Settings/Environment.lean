/-
  LedgerWatch.Settings.Environment — settings from environment variables.

  Blanks around a value do not count. A variable that is not set leaves the standard
  value; one that is set must denote a value, and the first that does not is told, with
  its value in quotes as it was set. Only then is the whole checked.
-/

import LedgerWatch.Settings
import LedgerWatch.Decimal.Read
import LedgerWatch.Text.Blank

namespace LedgerWatch

open LedgerWatch.Text

abbrev Environment := String → Option String

/-- Yes or no. Of all characters only the ASCII letters have lower-case forms in these words, so it does
not matter that the case of no other is folded. -/
def flag? (raw : String) : Option Bool :=
  let word := String.ofList ((trim raw.toList).map Char.toLower)
  if word = "1" ∨ word = "true" ∨ word = "yes" ∨ word = "on" then some true
  else if word = "0" ∨ word = "false" ∨ word = "no" ∨ word = "off" then some false
  else none

namespace Environment

/-- The value of a variable, or the standard one; `fault` says what is wrong with it. -/
def read {α : Type} (env : Environment) (name : String) (value? : String → Option α) (fault : String)
    (standard : α) : Except NotifyError α :=
  match env name with
  | none => .ok standard
  | some raw => match value? raw with
    | some x => .ok x
    | none => .error (.invalidConfig (name ++ ": " ++ fault ++ " " ++ Quoted.string raw))

def flag (env : Environment) (name : String) (standard : Bool) : Except NotifyError Bool :=
  env.read name flag? "expected a boolean, got" standard

def count (env : Environment) (name : String) (standard : Nat) : Except NotifyError Nat :=
  env.read name (fun raw => Numeral.readBelow UInt64.size (trim raw.toList)) "cannot parse" standard

def rate (env : Environment) (name : String) (standard : Float) : Except NotifyError Float :=
  env.read name (fun raw => Decimal.read (trim raw.toList)) "cannot parse" standard

/-- The settings the variables denote, checked or not. -/
def assemble (env : Environment) : Except NotifyError Settings := do
  let standard := Settings.standard
  let subscribeToAll ← env.flag "LN_ENABLE_SUBSCRIBE_TO_ALL" standard.subscribeToAll
  let elements ← env.count "LN_FILTER_EXPECTED_ITEMS" standard.filter.elements
  let rate ← env.rate "LN_FILTER_FPR" standard.filter.rate
  let maxFollowed ← env.count "LN_MAX_TRACKED_ACCOUNTS" standard.maxFollowed
  let workers ← env.count "LN_DELIVERY_WORKERS" standard.delivery.workers
  let capacity ← env.count "LN_DELIVERY_QUEUE_CAPACITY" standard.delivery.capacity
  return ⟨subscribeToAll, ⟨elements, rate, standard.filter.maxBits⟩, maxFollowed, ⟨workers, capacity⟩⟩

end Environment

def Settings.ofEnvironment (env : Environment) : Except NotifyError Settings := do
  let s ← env.assemble
  s.check
  return s

end LedgerWatch
