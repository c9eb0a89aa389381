/-
  LedgerWatch.Market — amounts, prices and markets.

  A market is a pair of assets, and which of them comes first says nothing: `Market.of`
  puts the lower asset first, so it makes one value of both orders. A pair of one asset
  with itself is no market to trade on. A market read from a document is taken as it
  stands there.
-/

import LedgerWatch.Ident

namespace LedgerWatch

structure Amount where
  amount : Int64
  asset : AssetId
  deriving DecidableEq

structure Market where
  base : AssetId
  quote : AssetId
  deriving DecidableEq, Repr

namespace Market

def of (a b : AssetId) : Market := if a.number ≤ b.number then ⟨a, b⟩ else ⟨b, a⟩

def isDegenerate (m : Market) : Bool := m.base = m.quote

def text (m : Market) : String := m.base.text ++ ":" ++ m.quote.text

theorem rank_inj {a b : Market}
    (h : a.base.number.toNat * UInt64.size + a.quote.number.toNat
      = b.base.number.toNat * UInt64.size + b.quote.number.toNat) : a = b := by
  have := a.quote.number.toNat_lt; have := b.quote.number.toNat_lt
  obtain ⟨⟨a1⟩, ⟨a2⟩⟩ := a; obtain ⟨⟨b1⟩, ⟨b2⟩⟩ := b
  simp only [UInt64.size, Market.mk.injEq, AssetId.mk.injEq, ← UInt64.toNat_inj] at *
  omega

/-- By base, then by quote. -/
instance : Ranked Market := ⟨fun m => m.base.number.toNat * UInt64.size + m.quote.number.toNat, rank_inj⟩

theorem of_comm (a b : AssetId) : of a b = of b a := by
  obtain ⟨a⟩ := a; obtain ⟨b⟩ := b
  simp only [of]
  split <;> split <;> rename_i h h'
  · rw [UInt64.le_antisymm h h']
  · rfl
  · rfl
  · exact absurd (UInt64.le_total a b) (by simp [h, h'])

end Market

/-- So much of `base` for so much of `quote`. -/
structure Price where
  base : Amount
  quote : Amount
  deriving DecidableEq

def Price.market (p : Price) : Market := .of p.base.asset p.quote.asset

end LedgerWatch
