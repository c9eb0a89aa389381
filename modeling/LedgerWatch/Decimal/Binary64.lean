/-
  LedgerWatch.Decimal.Binary64 — binary64 numbers as exact fractions.

  `valueOf` takes a number apart: a finite one is `m · 2 ^ q`, with `m` below `2 ^ 53`
  and `q` at least -1074. `nearest` goes the other way: the number closest to a
  fraction, an even `m` where two are as close, infinity beyond the last.
-/

namespace LedgerWatch.Decimal

inductive Value where
  | nan
  | infinite (negative : Bool)
  /-- `± m · 2 ^ q` -/
  | finite (negative : Bool) (m : Nat) (q : Int)
  deriving DecidableEq, Repr

/-- `2 ^ 52`, which the fraction of a normal number lacks. -/
def hiddenBit : Nat := 0x10000000000000

/-- `2 ^ 63`, set in a negative number. -/
def signBit : Nat := 0x8000000000000000

def valueOf (x : Float) : Value :=
  let bits := x.toBits.toNat
  let negative := decide (signBit ≤ bits)
  let e : Nat := bits / hiddenBit % 2048
  let f : Nat := bits % hiddenBit
  if e = 2047 then if f = 0 then .infinite negative else .nan
  else if e = 0 then .finite negative f (-1074)
  else .finite negative (hiddenBit + f) ((e : Int) - 1075)

/-- `num / den` to the nearest whole number, a half to the even one. -/
def roundHalfEven (num den : Nat) : Nat :=
  let n := num / den
  let r := num % den
  if den < 2 * r ∨ (2 * r = den ∧ n % 2 = 1) then n + 1 else n

/-- `x · 2 ^ q` over `y`, as numerator and denominator. -/
def scaled (x y : Nat) (q : Int) : Nat × Nat :=
  if 0 ≤ q then (x * Nat.pow 2 q.toNat, y) else (x, y * Nat.pow 2 (-q).toNat)

/-- The bits of the number nearest to `num / den`, sign apart. The number `m · 2 ^ q` has the bits
`(q + 1074) · 2 ^ 52 + m`, normal or not, so an `m` rounded up to `2 ^ 53` needs no care. -/
def nearestBits (num den : Nat) : Nat :=
  let guess : Int := (Nat.log2 num : Int) - Nat.log2 den - 52
  let (a, b) := scaled num den (-guess)
  let q := max (if a / b < hiddenBit then guess - 1 else guess) (-1074)
  let (a, b) := scaled num den (-q)
  min ((q + 1074).toNat * hiddenBit + roundHalfEven a b) (2047 * hiddenBit)

def nearest (negative : Bool) (num den : Nat) : Float :=
  let bits := if num = 0 then 0 else nearestBits num den
  Float.ofBits (UInt64.ofNat (if negative then signBit + bits else bits))

def infinity (negative : Bool) : Float := Float.ofBits (if negative then 0xfff0000000000000 else 0x7ff0000000000000)

end LedgerWatch.Decimal
