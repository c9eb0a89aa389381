/-
  LedgerWatch.Text.Hex — byte strings as hexadecimal text.

  `encode` writes two lower-case digits a byte. `decode` takes either case and works on
  the UTF-8 bytes of its text: an odd number of bytes is refused first, then the first
  byte that is no digit, with its index.
-/

import LedgerWatch.Bytes
import LedgerWatch.Text.Quoted

namespace LedgerWatch.Text.Hex

inductive Error where
  | oddLength
  | notADigit (byte : UInt8) (index : Nat)
  | wrongLength (expected : Nat)
  deriving DecidableEq, Repr

def Error.message : Error → String
  | .oddLength => "Odd number of digits"
  | .notADigit byte index =>
    "Invalid character " ++ Quoted.char (Char.ofNat byte.toNat) ++ " at position " ++ toString index
  | .wrongLength expected => "expected " ++ toString expected ++ " bytes"

/-- The digit of a value below sixteen. -/
def digit (n : Nat) : Char := Char.ofNat (if n < 10 then 48 + n else 87 + n)

def encode (bs : Bytes) : List Char := bs.flatMap fun b => [digit (b.toNat / 16), digit (b.toNat % 16)]

/-- The value of a digit, given as its ASCII byte. -/
def value? (b : UInt8) : Option Nat :=
  let n := b.toNat
  if 48 ≤ n ∧ n ≤ 57 then some (n - 48)
  else if 97 ≤ n ∧ n ≤ 102 then some (n - 87)
  else if 65 ≤ n ∧ n ≤ 70 then some (n - 55)
  else none

/-- Reads digits in pairs, from index `i` on; a last digit without a partner is not looked at. -/
def pairs : Nat → Bytes → Except Error Bytes
  | i, hi :: lo :: rest =>
    match value? hi, value? lo with
    | none, _ => .error (.notADigit hi i)
    | some _, none => .error (.notADigit lo (i + 1))
    | some h, some l => (pairs (i + 2) rest).map (UInt8.ofNat (16 * h + l) :: ·)
  | _, _ => .ok []

def decode (s : String) : Except Error Bytes :=
  let bs := Bytes.utf8 s
  if bs.length % 2 = 1 then .error .oddLength else pairs 0 bs

/-- Exactly `n` bytes. -/
def decodeOctets (n : Nat) (s : String) : Except Error (Octets n) :=
  match decode s with
  | .error e => .error e
  | .ok bs => match Octets.ofList? bs with
    | some o => .ok o
    | none => .error (.wrongLength n)

end LedgerWatch.Text.Hex
