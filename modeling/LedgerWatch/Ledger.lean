/-
  LedgerWatch.Ledger — the objects there are, and the operations of the last block.

  Objects are held by their ids, in id order, and every answer that lists objects lists
  them in that order; only the listing by name goes by name, and by id among equals.
-/

import LedgerWatch.Record

namespace LedgerWatch

structure Ledger where
  objects : SortedMap ObjectId Record
  applied : List AppliedOperation

namespace Ledger

def empty : Ledger := ⟨.empty, []⟩

def find? (l : Ledger) (id : ObjectId) : Option Record := l.objects.get? id

/-- The ledger with a record under its own id, in place of the one it may have there. -/
def insert (l : Ledger) (r : Record) : Ledger := { l with objects := l.objects.insert r.id r }

def erase (l : Ledger) (id : ObjectId) : Ledger := { l with objects := l.objects.erase id }

def apply (l : Ledger) (ops : List AppliedOperation) : Ledger := { l with applied := ops }

def size (l : Ledger) : Nat := l.objects.size

def accounts (l : Ledger) : List Account := l.objects.values.filterMap Record.account?

def account? (l : Ledger) (id : AccountId) : Option Account := (l.find? id.objectId).bind Record.account?

def asset? (l : Ledger) (id : AssetId) : Option Asset := (l.find? id.objectId).bind Record.asset?

/-- Of accounts with one name, the first by id. -/
def accountNamed? (l : Ledger) (name : String) : Option Account := l.accounts.find? (·.name = name)

/-- At most `limit` accounts by name, from a name on. -/
def accountsFrom (l : Ledger) (name : String) (limit : Nat) : List Account :=
  ((l.accounts.filter fun a => decide (name ≤ a.name)).mergeSort fun a b => decide (a.name ≤ b.name)).take limit

def balancesOf (l : Ledger) (owner : AccountId) : List AccountBalance :=
  (l.objects.values.filterMap Record.accountBalance?).filter (·.owner = owner)

def limitOrdersOf (l : Ledger) (seller : AccountId) : List LimitOrder :=
  (l.objects.values.filterMap Record.limitOrder?).filter (·.seller = seller)

def callOrdersOf (l : Ledger) (borrower : AccountId) : List CallOrder :=
  (l.objects.values.filterMap Record.callOrder?).filter (·.borrower = borrower)

def balancesAt (l : Ledger) (owner : Address) : List AddressBalance :=
  (l.objects.values.filterMap Record.addressBalance?).filter (·.owner = owner)

/-- The accounts with a key among theirs. -/
def accountsWithKey (l : Ledger) (key : PublicKey) : List AccountId :=
  (l.accounts.filter (·.keys.contains key)).map Account.accountId

/-- The accounts with a key of that address. -/
def accountsWithAddress (l : Ledger) (address : Address) : List AccountId :=
  (l.accounts.filter fun a => a.keys.any (·.address = address)).map Account.accountId

end Ledger

end LedgerWatch
