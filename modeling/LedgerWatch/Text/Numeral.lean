/-
  LedgerWatch.Text.Numeral — unsigned decimal numerals.

  `write` has no superfluous zeros. `read` is more liberal: one `+` may stand in front
  and zeros may lead, but only ASCII digits count, at least one of them, and no blank
  and no `-` is allowed. `readBelow` also refuses a value at or above a bound.
-/

namespace LedgerWatch.Text.Numeral

def write (n : Nat) : List Char := Nat.toDigits 10 n

/-- The value of an ASCII digit. -/
def digit? (c : Char) : Option Nat := if c.isDigit then some (c.toNat - 48) else none

/-- The digits `cs` behind the value `acc` of those already read. -/
def readFrom : Nat → List Char → Option Nat
  | acc, [] => some acc
  | acc, c :: cs => (digit? c).bind fun d => readFrom (10 * acc + d) cs

/-- One or more digits. -/
def readDigits : List Char → Option Nat
  | [] => none
  | c :: cs => readFrom 0 (c :: cs)

def read : List Char → Option Nat
  | '+' :: cs => readDigits cs
  | cs => readDigits cs

def readBelow (bound : Nat) (cs : List Char) : Option Nat := (read cs).filter (· < bound)

end LedgerWatch.Text.Numeral
