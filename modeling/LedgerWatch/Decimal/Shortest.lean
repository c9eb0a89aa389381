/-
  LedgerWatch.Decimal.Shortest — a binary64 number as decimal digits.

  `shortest` finds the fewest digits that read back as the number: for 1, 2, ... digits
  it tries the two neighbours of the number on the decimal grid with that many digits,
  and the first grid with a neighbour inside the interval of fractions that round to the
  number wins. Of two neighbours inside, the nearer one is taken; an exact tie is left
  to the caller. `rounded` gives a fixed number of digits instead, a half going to the
  even last digit.
-/

import LedgerWatch.Decimal.Binary64

namespace LedgerWatch.Decimal

/-- The fraction `digits · 10 ^ exponent`. -/
structure Decimals where
  digits : Nat
  exponent : Int
  deriving DecidableEq, Repr

/-- How many digits a positive number is written with. -/
def width (n : Nat) : Nat := (Nat.toDigits 10 n).length

/-- The `k` with `10 ^ k ≤ num / den < 10 ^ (k + 1)`. -/
def decade (num den : Nat) : Int :=
  let k : Int := (width num : Int) - width den
  let reached := if 0 ≤ k then den * Nat.pow 10 k.toNat ≤ num else den ≤ num * Nat.pow 10 (-k).toNat
  if reached then k else k - 1

/-- The two factors `(a, b)` for which `d · 10 ^ s ≤ x · 2 ^ t` says `d · a ≤ x · b`. -/
def factors (s t : Int) : Nat × Nat :=
  ((if 0 ≤ s then Nat.pow 10 s.toNat else 1) * (if t < 0 then Nat.pow 2 (-t).toNat else 1),
    (if s < 0 then Nat.pow 10 (-s).toNat else 1) * (if 0 ≤ t then Nat.pow 2 t.toNat else 1))

/-- A point of the grid of multiples of `10 ^ s` that rounds to `m · 2 ^ q`, if there is one. The
interval reaches half a step to either side, a quarter below where the steps get smaller. -/
def onGrid (tieUp : Bool) (m : Nat) (q s : Int) : Option Nat :=
  let (a, b) := factors s (q - 2)
  let low := (4 * m - (if m = hiddenBit ∧ -1074 < q then 1 else 2)) * b
  let high := (4 * m + 2) * b
  let inside := fun d => if m % 2 = 0 then low ≤ d * a && d * a ≤ high else low < d * a && d * a < high
  let below := 4 * m * b / a
  let above := below + 1
  match inside below, inside above with
  | false, false => none
  | true, false => some below
  | false, true => some above
  | true, true =>
    let down := 4 * m * b - below * a
    let up := above * a - 4 * m * b
    some (if up < down ∨ (up = down ∧ (tieUp ∨ below % 2 = 1)) then above else below)

/-- Without trailing zeros. -/
def Decimals.trimmed : Nat → Decimals → Decimals
  | 0, d => d
  | fuel + 1, d => if d.digits % 10 = 0 then trimmed fuel ⟨d.digits / 10, d.exponent + 1⟩ else d

/-- The digits of `m · 2 ^ q`, for a positive `m`; seventeen are always enough. -/
def shortest (tieUp : Bool) (m : Nat) (q : Int) : Decimals :=
  let (num, den) := scaled m 1 q
  let k := decade num den
  let tries := (List.range 17).findSome? fun (n : Nat) =>
    (onGrid tieUp m q (k - n)).map fun d => Decimals.trimmed 18 ⟨d, k - n⟩
  tries.getD ⟨0, 0⟩

/-- The nearest fraction with `n + 1` digits, for a positive `m`. -/
def rounded (n m : Nat) (q : Int) : Decimals :=
  let (num, den) := scaled m 1 q
  let s := decade num den - n
  let d :=
    if 0 ≤ s then roundHalfEven num (den * Nat.pow 10 s.toNat) else roundHalfEven (num * Nat.pow 10 (-s).toNat) den
  if d = Nat.pow 10 (n + 1) then ⟨Nat.pow 10 n, s + 1⟩ else ⟨d, s⟩

end LedgerWatch.Decimal
