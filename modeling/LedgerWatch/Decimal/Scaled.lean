/-
  LedgerWatch.Decimal.Scaled — the quick reading of a decimal number.

  The digits are taken into a significand of 64 bits as long as they fit; of the digits
  left over, those before the point count as powers of ten and those behind it not at
  all. The significand is rounded to binary64 and then multiplied or divided by a power
  of ten, which is rounded too, so the answer can be off by a last bit where
  `Decimal.Read` is not. A product beyond the largest number is refused.
-/

import LedgerWatch.Decimal.Binary64
import LedgerWatch.Text.Numeral

namespace LedgerWatch.Decimal.Scaled

open LedgerWatch.Text

/-- The significand behind `sig`, and the digits that did not fit. -/
def gather : Nat → List Char → Nat × List Char
  | sig, [] => (sig, [])
  | sig, c :: cs =>
    let next := 10 * sig + (c.toNat - 48)
    if UInt64.size ≤ next then (sig, c :: cs) else gather next cs

def powerOfTen (e : Nat) : Float := nearest false (Nat.pow 10 e) 1

/-- `x · 10 ^ e`. A power below `10 ^ -308` is divided by in steps; after three of them nothing is left. -/
def scale : Nat → Float → Int → Option Float
  | steps, x, e =>
    if e.natAbs ≤ 308 then
      if 0 ≤ e then
        let y := x * powerOfTen e.toNat
        if y.isInf then none else some y
      else some (x / powerOfTen (-e).toNat)
    else if x == 0 then some x
    else if 0 ≤ e then none
    else match steps with
      | 0 => some 0
      | n + 1 => scale n (x / powerOfTen 308) (e + 308)

/-- The number `± whole.fraction · 10 ^ e`. -/
def read (negative : Bool) (whole fraction : List Char) (e : Int) : Option Float :=
  let (sig, left) := gather 0 whole
  let (sig, unused) := gather sig fraction
  let used : Int := (fraction.length : Int) - unused.length
  (scale 3 sig.toUInt64.toFloat (e + left.length - used)).map fun x => if negative then -x else x

end LedgerWatch.Decimal.Scaled
