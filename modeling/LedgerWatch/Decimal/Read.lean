/-
  LedgerWatch.Decimal.Read — the binary64 number a text denotes.

  A sign may stand in front; then come `inf`, `infinity` or `nan` in any case, or digits
  with at most one point among them, at least one digit in all, and an exponent after
  them if there is an `e`. The nearest number is meant, however many digits there are.
-/

import LedgerWatch.Decimal.Binary64
import LedgerWatch.Text.Numeral

namespace LedgerWatch.Decimal

open LedgerWatch.Text

/-- The number nearest to `± digits · 10 ^ exponent`. A number of `w` digits times `10 ^ e` is at
least `10 ^ 309`, above every finite number, if `w + e` is over 309, and below `10 ^ -324`, nearer
to zero than to any other, if `w + e` is under -324: no power beyond those is formed. -/
def ofDecimal (negative : Bool) (digits : List Char) (exponent : Int) : Float :=
  let ds := digits.dropWhile (· = '0')
  let n := (Numeral.readFrom 0 ds).getD 0
  let size : Int := ds.length + exponent
  if n = 0 ∨ size < -330 then nearest negative 0 1
  else if 400 < size then infinity negative
  else if 0 ≤ exponent then nearest negative (n * Nat.pow 10 exponent.toNat) 1
  else nearest negative n (Nat.pow 10 (-exponent).toNat)

/-- A sign and what follows it; no sign is a plus. -/
def splitSign : List Char → Bool × List Char
  | '-' :: cs => (true, cs)
  | '+' :: cs => (false, cs)
  | cs => (false, cs)

/-- The exponent behind an `e`, or 0 if the text is at its end. -/
def readExponent : List Char → Option Int
  | [] => some 0
  | c :: cs =>
    if c = 'e' ∨ c = 'E' then
      let (negative, ds) := splitSign cs
      (Numeral.readDigits ds).map fun n => if negative then -(n : Int) else n
    else none

def readUnsigned (negative : Bool) (cs : List Char) : Option Float :=
  let whole := cs.takeWhile Char.isDigit
  let rest := cs.dropWhile Char.isDigit
  let (fraction, rest) := match rest with
    | '.' :: r => (r.takeWhile Char.isDigit, r.dropWhile Char.isDigit)
    | r => ([], r)
  if whole.isEmpty && fraction.isEmpty then none
  else (readExponent rest).map fun e => ofDecimal negative (whole ++ fraction) (e - fraction.length)

def read (cs : List Char) : Option Float :=
  let (negative, rest) := splitSign cs
  let word := String.ofList (rest.map Char.toLower)
  if word = "inf" ∨ word = "infinity" then some (infinity negative)
  else if word = "nan" then some (Float.ofBits 0x7ff8000000000000)
  else readUnsigned negative rest

end LedgerWatch.Decimal
