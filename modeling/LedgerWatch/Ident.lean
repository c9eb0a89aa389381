/-
  LedgerWatch.Ident — identifiers of ledger objects.

  An object id is `space.type.number`; the kinds of objects that matter here have fixed
  spaces and types. Account and asset ids are object ids of one kind and keep only the
  number. All of them are written and read as the text of the object id; reading takes
  the liberties of `Text.Numeral`, so a text has one id but an id has many texts.
-/

import LedgerWatch.SortedMap
import LedgerWatch.Text.Hex
import LedgerWatch.Text.Numeral

namespace LedgerWatch

open LedgerWatch.Text

structure ObjectId where
  space : UInt8
  type : UInt8
  number : UInt64
  deriving DecidableEq, Repr

inductive Kind where
  | account
  | asset
  | limitOrder
  | callOrder
  | operation
  | balance
  | accountBalance
  | accountHistory
  deriving DecidableEq, Repr

namespace Kind

def all : List Kind :=
  [.account, .asset, .limitOrder, .callOrder, .operation, .balance, .accountBalance, .accountHistory]

/-- Objects made by operations are in space 1, the ledger's own bookkeeping is in space 2. -/
def space : Kind → UInt8
  | .accountBalance | .accountHistory => 2
  | _ => 1

def type : Kind → UInt8
  | .account => 2
  | .asset => 3
  | .limitOrder => 7
  | .callOrder => 8
  | .operation => 11
  | .balance => 15
  | .accountBalance => 5
  | .accountHistory => 9

def name : Kind → String
  | .account => "Account"
  | .asset => "Asset"
  | .limitOrder => "LimitOrder"
  | .callOrder => "CallOrder"
  | .operation => "OperationHistory"
  | .balance => "Balance"
  | .accountBalance => "AccountBalance"
  | .accountHistory => "AccountTransactionHistory"

def id (kind : Kind) (number : UInt64) : ObjectId := ⟨kind.space, kind.type, number⟩

end Kind

/-- Why a text is no identifier. -/
inductive IdError where
  | malformed (text : String)
  | wrongKind (id : ObjectId) (expected : Kind)
  | invalidHex (error : Hex.Error)
  deriving DecidableEq, Repr

namespace ObjectId

def is (id : ObjectId) (kind : Kind) : Bool := id.space = kind.space && id.type = kind.type

theorem is_iff {id : ObjectId} {kind : Kind} : id.is kind = true ↔ id = kind.id id.number := by
  cases id
  simp [is, Kind.id]

def kind? (id : ObjectId) : Option Kind := Kind.all.find? id.is

/-- The ten bytes of an id: its space, its type and its number. -/
def bytes (id : ObjectId) : Bytes := id.space :: id.type :: Bytes.big 8 id.number.toNat

def chars (id : ObjectId) : List Char :=
  Numeral.write id.space.toNat ++ '.' :: Numeral.write id.type.toNat ++ '.' :: Numeral.write id.number.toNat

def text (id : ObjectId) : String := String.ofList id.chars

/-- What stands before the first point and what behind it. -/
def cut : List Char → Option (List Char × List Char)
  | [] => none
  | c :: cs => if c = '.' then some ([], cs) else (cut cs).map fun (a, b) => (c :: a, b)

def ofChars? (cs : List Char) : Option ObjectId := do
  let (space, rest) ← cut cs
  let (type, number) ← cut rest
  return ⟨UInt8.ofNat (← Numeral.readBelow UInt8.size space), UInt8.ofNat (← Numeral.readBelow UInt8.size type),
    UInt64.ofNat (← Numeral.readBelow UInt64.size number)⟩

def parse (s : String) : Except IdError ObjectId :=
  match ofChars? s.toList with
  | some id => .ok id
  | none => .error (.malformed s)

theorem rank_inj {a b : ObjectId}
    (h : (a.space.toNat * UInt8.size + a.type.toNat) * UInt64.size + a.number.toNat
      = (b.space.toNat * UInt8.size + b.type.toNat) * UInt64.size + b.number.toNat) : a = b := by
  have := a.type.toNat_lt; have := b.type.toNat_lt
  have := a.number.toNat_lt; have := b.number.toNat_lt
  cases a; cases b
  simp only [UInt8.size, UInt64.size, ObjectId.mk.injEq, ← UInt8.toNat_inj, ← UInt64.toNat_inj] at *
  omega

/-- By space, then type, then number. -/
instance : Ranked ObjectId :=
  ⟨fun id => (id.space.toNat * UInt8.size + id.type.toNat) * UInt64.size + id.number.toNat, rank_inj⟩

/-- The number of an id that must be of one kind. -/
def numberOf (kind : Kind) (id : ObjectId) : Except IdError UInt64 :=
  if id.is kind then .ok id.number else .error (.wrongKind id kind)

end ObjectId

def IdError.message : IdError → String
  | .malformed text => "Malformed object id: " ++ text
  | .wrongKind id expected => "Object id " ++ id.text ++ " is not a " ++ expected.name ++ "Id"
  | .invalidHex error => "Invalid hex encoding: " ++ error.message

structure AccountId where
  number : UInt64
  deriving DecidableEq, Repr

namespace AccountId

def objectId (a : AccountId) : ObjectId := Kind.account.id a.number

def text (a : AccountId) : String := a.objectId.text

def ofObjectId (id : ObjectId) : Except IdError AccountId := (id.numberOf .account).map AccountId.mk

def parse (s : String) : Except IdError AccountId := (ObjectId.parse s).bind ofObjectId

instance : Ranked AccountId := ⟨fun a => a.number.toNat, fun {a b} h => by
  cases a; cases b; simpa [UInt64.toNat_inj] using h⟩

end AccountId

structure AssetId where
  number : UInt64
  deriving DecidableEq, Repr

namespace AssetId

def objectId (a : AssetId) : ObjectId := Kind.asset.id a.number

def text (a : AssetId) : String := a.objectId.text

def ofObjectId (id : ObjectId) : Except IdError AssetId := (id.numberOf .asset).map AssetId.mk

def parse (s : String) : Except IdError AssetId := (ObjectId.parse s).bind ofObjectId

instance : Ranked AssetId := ⟨fun a => a.number.toNat, fun {a b} h => by
  cases a; cases b; simpa [UInt64.toNat_inj] using h⟩

end AssetId

end LedgerWatch
