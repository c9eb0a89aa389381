/-
  LedgerWatch.Session.Requests — what a session can ask.

  A request changes the session's own subscriptions at most, and a refused one changes
  nothing. Queries answer from the ledger alone; what they return, or in some cases what
  they were asked for, is armed in the filter on the way.
-/

import LedgerWatch.Ledger
import LedgerWatch.Subscriptions

namespace LedgerWatch

/-- An account with all that belongs to it. -/
structure FullAccount where
  account : Account
  balances : List AccountBalance
  limitOrders : List LimitOrder
  callOrders : List CallOrder
  deriving DecidableEq

/-- Values by name, each name once. -/
abbrev ByName (α : Type) := List (String × α)

/-- Under a name that is there already the new value takes the old one's place. -/
def ByName.put {α : Type} (name : String) (x : α) : ByName α → ByName α
  | [] => [(name, x)]
  | (n, y) :: rest => if n = name then (name, x) :: rest else (n, y) :: put name x rest

def ByName.ofList {α : Type} (xs : List (String × α)) : ByName α := xs.foldl (fun m (n, x) => put n x m) []

namespace Ledger

/-- A text that begins with a digit is an account id, any other a name. -/
def resolve? (l : Ledger) (s : String) : Option Account :=
  if (s.toList.head?.map Char.isDigit).getD false then
    match AccountId.parse s with
    | .ok id => l.account? id
    | .error _ => none
  else l.accountNamed? s

def fullAccount (l : Ledger) (a : Account) : FullAccount :=
  ⟨a, l.balancesOf a.accountId, l.limitOrdersOf a.accountId, l.callOrdersOf a.accountId⟩

end Ledger

namespace Subscriptions

/-! ## Queries -/

/-- Objects of the two history kinds are too many to watch. -/
def isHistory (id : ObjectId) : Bool := id.is .operation || id.is .accountHistory

/-- The records of ids. The ids are armed, found or not, but for those of histories. -/
def getObjects (l : Ledger) (s : Subscriptions) (ids : List ObjectId) : List (Option Record) × Subscriptions :=
  (ids.map l.find?, s.armAll ((ids.filter (!isHistory ·)).map .object))

/-- The accounts of ids; those found are armed. -/
def getAccounts (l : Ledger) (s : Subscriptions) (ids : List AccountId) : List (Option Account) × Subscriptions :=
  (ids.map l.account?, s.armAll ((ids.filter fun id => (l.account? id).isSome).map .account))

/-- The assets of ids; those found are armed. -/
def getAssets (l : Ledger) (s : Subscriptions) (ids : List AssetId) : List (Option Asset) × Subscriptions :=
  (ids.map l.asset?, s.armAll ((ids.filter fun id => (l.asset? id).isSome).map .asset))

/-- Follows an account and arms its id, unless there are enough already. -/
def track (s : Subscriptions) (a : AccountId) : Subscriptions :=
  match s.follow a with
  | (true, s) => (s.arm (.account a)).2
  | (false, s) => s

/-- The accounts that names or ids stand for, with all that is theirs, and, to subscribe, followed as far
as the cap allows. -/
def getFullAccounts (l : Ledger) (s : Subscriptions) (keys : List String) (subscribe : Bool) :
    ByName FullAccount × Subscriptions :=
  let found := keys.filterMap fun key => (l.resolve? key).map fun a => (key, a)
  (.ofList (found.map fun (key, a) => (key, l.fullAccount a)),
    if subscribe then (found.map (·.2.accountId)).foldl track s else s)

def maxLookup : Nat := 1000

/-- The ids of accounts by name, from a name on; a single account is armed. -/
def lookupAccounts (l : Ledger) (s : Subscriptions) (lower : String) (limit : Nat) :
    Except NotifyError (ByName AccountId × Subscriptions) :=
  if maxLookup < limit then .error (.limitExceeded limit maxLookup)
  else
    let accounts := l.accountsFrom lower limit
    .ok (.ofList (accounts.map fun a => (a.name, a.accountId)),
      match accounts with
      | [only] => (s.arm (.account only.accountId)).2
      | _ => s)

/-- The accounts with a key of the same address, then those with the key itself. -/
def references (l : Ledger) (key : PublicKey) : List AccountId :=
  l.accountsWithAddress key.address ++ l.accountsWithKey key

/-- The accounts each key belongs to. The keys and their addresses are armed, then all the accounts. -/
def getKeyReferences (l : Ledger) (s : Subscriptions) (keys : List PublicKey) :
    List (List AccountId) × Subscriptions :=
  let found := keys.map (references l)
  (found, s.armAll ((keys.flatMap fun k => [.key k, .address k.address]) ++ found.flatten.map .account))

/-- What waits at addresses to be claimed. The addresses are armed. -/
def getBalances (l : Ledger) (s : Subscriptions) (addresses : List Address) : List AddressBalance × Subscriptions :=
  (addresses.flatMap l.balancesAt, s.armAll (addresses.map .address))

end Subscriptions

/-! ## Requests -/

inductive Request where
  | subscribe (callback : Callback) (notifyAll : Bool)
  | unsubscribeAll
  | subscribePending (callback : Option Callback)
  | subscribeBlocks (callback : Option Callback)
  | subscribeMarket (callback : Callback) (a b : AssetId)
  | unsubscribeMarket (a b : AssetId)
  | getObjects (ids : List ObjectId)
  | getAccounts (ids : List AccountId)
  | getFullAccounts (keys : List String) (subscribe : Bool)
  | lookupAccounts (lower : String) (limit : Nat)
  | getAssets (ids : List AssetId)
  | getKeyReferences (keys : List PublicKey)
  | getBalances (addresses : List Address)

inductive Reply where
  | done
  | refused (error : NotifyError)
  | objects (found : List (Option Record))
  | accounts (found : List (Option Account))
  | fullAccounts (found : ByName FullAccount)
  | names (found : ByName AccountId)
  | assets (found : List (Option Asset))
  | references (found : List (List AccountId))
  | balances (found : List AddressBalance)

/-- The reply, and the subscriptions afterwards. -/
def Subscriptions.serve (l : Ledger) (s : Subscriptions) : Request → Reply × Subscriptions
  | .subscribe callback notifyAll =>
    match s.install (some callback) notifyAll with
    | .ok s' => (.done, s')
    | .error e => (.refused e, s)
  | .unsubscribeAll => (.done, s.cancel)
  | .subscribePending callback => (.done, s.setPending callback)
  | .subscribeBlocks callback => (.done, s.setBlock callback)
  | .subscribeMarket callback a b =>
    match s.subscribeMarket callback a b with
    | .ok (_, s') => (.done, s')
    | .error e => (.refused e, s)
  | .unsubscribeMarket a b =>
    match s.unsubscribeMarket a b with
    | .ok (_, s') => (.done, s')
    | .error e => (.refused e, s)
  | .getObjects ids => let (found, s') := getObjects l s ids; (.objects found, s')
  | .getAccounts ids => let (found, s') := getAccounts l s ids; (.accounts found, s')
  | .getFullAccounts keys subscribe =>
    let (found, s') := getFullAccounts l s keys subscribe; (.fullAccounts found, s')
  | .lookupAccounts lower limit =>
    match lookupAccounts l s lower limit with
    | .ok (found, s') => (.names found, s')
    | .error e => (.refused e, s)
  | .getAssets ids => let (found, s') := getAssets l s ids; (.assets found, s')
  | .getKeyReferences keys => let (found, s') := getKeyReferences l s keys; (.references found, s')
  | .getBalances addresses => let (found, s') := getBalances l s addresses; (.balances found, s')

end LedgerWatch
