/-
  LedgerWatch.Key — public keys, the addresses derived from them, and block ids.

  All three are byte strings of fixed size with a hexadecimal text, ordered byte by
  byte. The first four bytes of a block id are the number of its block.
-/

import LedgerWatch.Digest.Sha256
import LedgerWatch.Ident

namespace LedgerWatch

open LedgerWatch.Text

namespace Octets

variable {n : Nat}

def text (o : Octets n) : String := String.ofList (Hex.encode o.toList)

def parse (s : String) : Except IdError (Octets n) := (Hex.decodeOctets n s).mapError .invalidHex

/-- Of byte strings of one size, the order byte by byte is that of the numbers they stand for. -/
instance : Ranked (Octets n) := ⟨fun o => Bytes.ofBig o.toList, fun {a b} h => by
  have := Bytes.ofLittle_inj (by simp [a.length_eq, b.length_eq]) h
  exact ext (List.reverse_inj.mp this)⟩

end Octets

structure PublicKey where
  octets : Octets 33
  deriving DecidableEq

structure Address where
  octets : Octets 20
  deriving DecidableEq

structure BlockId where
  octets : Octets 20
  deriving DecidableEq

namespace PublicKey

def text (k : PublicKey) : String := k.octets.text

def parse (s : String) : Except IdError PublicKey := (Octets.parse s).map PublicKey.mk

/-- The first twenty bytes of the key's digest. -/
def address (k : PublicKey) : Address := ⟨(Digest.Sha256.digest k.octets.toList).take 20 (by decide)⟩

instance : Ranked PublicKey := ⟨fun k => rank k.octets, fun {a b} h => by
  cases a; cases b; exact congrArg mk (Ranked.rank_inj h)⟩

end PublicKey

namespace Address

def text (a : Address) : String := a.octets.text

def parse (s : String) : Except IdError Address := (Octets.parse s).map Address.mk

instance : Ranked Address := ⟨fun k => rank k.octets, fun {a b} h => by
  cases a; cases b; exact congrArg mk (Ranked.rank_inj h)⟩

end Address

namespace BlockId

def text (b : BlockId) : String := b.octets.text

def parse (s : String) : Except IdError BlockId := (Octets.parse s).map BlockId.mk

def blockNumber (b : BlockId) : UInt32 := UInt32.ofNat (Bytes.ofBig (b.octets.toList.take 4))

instance : Ranked BlockId := ⟨fun k => rank k.octets, fun {a b} h => by
  cases a; cases b; exact congrArg mk (Ranked.rank_inj h)⟩

end BlockId

end LedgerWatch
