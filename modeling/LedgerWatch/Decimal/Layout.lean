/-
  LedgerWatch.Decimal.Layout — how a binary64 number is laid out as text.

  Three layouts are in use. `plain` never has an exponent and `compact` has one where
  the point would fall far outside the digits; both have the fewest digits that read
  back. `scientific n` has `n` digits behind the point, always.
-/

import LedgerWatch.Decimal.Shortest

namespace LedgerWatch.Decimal

structure Layout where
  /-- Whether a number is written without exponent, by the digits before its point. -/
  positional : Int → Bool
  /-- What follows a whole number. -/
  wholeMark : List Char
  /-- What stands before an exponent that has no minus sign. -/
  plus : List Char
  /-- Two shortest texts as near as each other: the larger, or the one with the even last digit. -/
  tieUp : Bool

def Layout.plain : Layout := ⟨fun _ => true, [], [], true⟩

def Layout.compact : Layout := ⟨fun p => -5 < p && p ≤ 16, ['.', '0'], ['+'], false⟩

private def zeros (n : Int) : List Char := List.replicate n.toNat '0'

/-- Digits with the point behind the first `p` of them. -/
def Layout.positionally (l : Layout) (ds : List Char) (p : Int) : List Char :=
  let n : Int := ds.length
  if n ≤ p then ds ++ zeros (p - n) ++ l.wholeMark
  else if 0 < p then ds.take p.toNat ++ '.' :: ds.drop p.toNat
  else '0' :: '.' :: zeros (-p) ++ ds

/-- Digits with the point behind the first of them, times `10 ^ e`. -/
def withExponent (plus ds : List Char) (e : Int) : List Char :=
  ds.take 1 ++ (if ds.length ≤ 1 then [] else '.' :: ds.drop 1)
    ++ 'e' :: (if e < 0 then [] else plus) ++ (toString e).toList

/-- `finite` lays out `m · 2 ^ q` for a positive `m`. -/
private def writeWith (zero : List Char) (finite : Nat → Int → List Char) (x : Float) : String :=
  String.ofList <| match valueOf x with
    | .nan => ['N', 'a', 'N']
    | .infinite negative => (if negative then ['-'] else []) ++ ['i', 'n', 'f']
    | .finite negative m q =>
      (if negative then ['-'] else []) ++ if m = 0 then zero else finite m q

def Layout.write (l : Layout) (x : Float) : String :=
  writeWith ('0' :: l.wholeMark) (fun m q =>
    let d := shortest l.tieUp m q
    let ds := Nat.toDigits 10 d.digits
    let p := d.exponent + ds.length
    if l.positional p then l.positionally ds p else withExponent l.plus ds (p - 1)) x

def scientific (n : Nat) (x : Float) : String :=
  writeWith (withExponent [] ('0' :: zeros n) 0) (fun m q =>
    let d := rounded n m q
    withExponent [] (Nat.toDigits 10 d.digits) (d.exponent + n)) x

end LedgerWatch.Decimal
