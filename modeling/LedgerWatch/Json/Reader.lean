/-
  LedgerWatch.Json.Reader — the document in a text.

  `read` takes a whole text: one value with blanks around it, and blanks are the space,
  the tab, the line feed and the carriage return. Each reading function returns what it
  read and what is left. A value is read with fuel for the calls it may nest, of which
  there are at most two for each character.
-/

import LedgerWatch.Json
import LedgerWatch.Decimal.Scaled

namespace LedgerWatch.Json

open LedgerWatch LedgerWatch.Text

def isBlank (c : Char) : Bool := c = ' ' || c = '\n' || c = '\t' || c = '\r'

def skipBlanks (cs : List Char) : List Char := cs.dropWhile isBlank

/-! ## Strings -/

def hexDigit? (c : Char) : Option Nat :=
  let n := c.toNat
  if 48 ≤ n ∧ n ≤ 57 then some (n - 48)
  else if 97 ≤ n ∧ n ≤ 102 then some (n - 87)
  else if 65 ≤ n ∧ n ≤ 70 then some (n - 55)
  else none

def hex4? (a b c d : Char) : Option Nat := do
  return 4096 * (← hexDigit? a) + 256 * (← hexDigit? b) + 16 * (← hexDigit? c) + (← hexDigit? d)

/-- The character of an escape of one letter. -/
def unescape? (c : Char) : Option Char :=
  if c = '"' ∨ c = '\\' ∨ c = '/' then some c
  else if c = 'b' then some '\x08'
  else if c = 'f' then some '\x0c'
  else if c = 'n' then some '\n'
  else if c = 'r' then some '\r'
  else if c = 't' then some '\t'
  else none

/-- `none` inside is a string that stands for no text. -/
abbrev StringRead := Option (List Char) × List Char

def StringRead.push (c : Char) (r : StringRead) : StringRead := (r.1.map (c :: ·), r.2)

def StringRead.spoilIf (spoilt : Bool) (r : StringRead) : StringRead := (if spoilt then none else r.1, r.2)

/-- The rest of a string behind its opening quote; `high` is the first half of a surrogate pair just read. -/
def readString (high : Option Nat) : List Char → Option StringRead
  | [] => none
  | '"' :: cs => some (if high.isSome then none else some [], cs)
  | '\\' :: 'u' :: a :: b :: c :: d :: cs =>
    match hex4? a b c d with
    | none => none
    | some n =>
      if 0xdc00 ≤ n ∧ n < 0xe000 then
        match high with
        | some m => (readString none cs).map (·.push (Char.ofNat (0x10000 + 1024 * (m - 0xd800) + (n - 0xdc00))))
        | none => (readString none cs).map (·.spoilIf true)
      else if 0xd800 ≤ n ∧ n < 0xdc00 then (readString (some n) cs).map (·.spoilIf high.isSome)
      else (readString none cs).map fun r => (r.push (Char.ofNat n)).spoilIf high.isSome
  | '\\' :: c :: cs =>
    (unescape? c).bind fun e => (readString none cs).map fun r => (r.push e).spoilIf high.isSome
  | c :: cs =>
    if c.toNat < 32 then none else (readString none cs).map fun r => (r.push c).spoilIf high.isSome

/-! ## Numbers -/

/-- An integer stays one if it has 64 bits; a zero with a sign is no integer. -/
def ofInteger (negative : Bool) (ds : List Char) : Json :=
  let n : Int := (Numeral.readFrom 0 ds).getD 0
  let n := if negative then -n else n
  if minInt ≤ n ∧ n ≤ maxInt ∧ ¬(negative ∧ n = 0) then .int n
  else ((Decimal.Scaled.read negative ds [] 0).map Json.real).getD .garbled

/-- The fraction of a number and what is left: digits behind a point, at least one. -/
def readFraction : List Char → Option (List Char × List Char)
  | '.' :: cs =>
    let ds := cs.takeWhile Char.isDigit
    if ds.isEmpty then none else some (ds, cs.dropWhile Char.isDigit)
  | cs => some ([], cs)

/-- The digits of an exponent, at least one. -/
def readPower (negative : Bool) (cs : List Char) : Option (Option Int × List Char) :=
  (Numeral.readDigits (cs.takeWhile Char.isDigit)).map fun n =>
    (some (if negative then -(n : Int) else n), cs.dropWhile Char.isDigit)

def readExponent : List Char → Option (Option Int × List Char)
  | [] => some (none, [])
  | c :: cs =>
    if c = 'e' ∨ c = 'E' then
      match cs with
      | '+' :: r => readPower false r
      | '-' :: r => readPower true r
      | r => readPower false r
    else some (none, c :: cs)

/-- The rest of a number behind its sign. -/
def readUnsigned (negative : Bool) (cs : List Char) : Option (Json × List Char) :=
  let whole := cs.takeWhile Char.isDigit
  match whole with
  | [] => none
  | '0' :: _ :: _ => none
  | _ => do
    let (fraction, cs) ← readFraction (cs.dropWhile Char.isDigit)
    let (power, cs) ← readExponent cs
    if fraction.isEmpty && power.isNone then return (ofInteger negative whole, cs)
    else return (((Decimal.Scaled.read negative whole fraction (power.getD 0)).map Json.real).getD .garbled, cs)

def readNumber : List Char → Option (Json × List Char)
  | '-' :: cs => readUnsigned true cs
  | cs => readUnsigned false cs

/-! ## Values -/

mutual

def readValue : Nat → List Char → Option (Json × List Char)
  | 0, _ => none
  | fuel + 1, cs =>
    match skipBlanks cs with
    | 'n' :: 'u' :: 'l' :: 'l' :: cs => some (.null, cs)
    | 't' :: 'r' :: 'u' :: 'e' :: cs => some (.bool true, cs)
    | 'f' :: 'a' :: 'l' :: 's' :: 'e' :: cs => some (.bool false, cs)
    | '"' :: cs => (readString none cs).map fun (s, cs) => ((s.map fun s => .str (String.ofList s)).getD .garbled, cs)
    | '[' :: cs =>
      match skipBlanks cs with
      | ']' :: cs => some (.arr [], cs)
      | cs => (readItems fuel cs).map fun (items, cs) => (.arr items, cs)
    | '\x7b' :: cs =>
      match skipBlanks cs with
      | '\x7d' :: cs => some (.obj [], cs)
      | cs => (readEntries fuel cs).map fun (entries, cs) => ((entries.map Json.obj).getD .garbled, cs)
    | cs => readNumber cs

/-- One or more items and the end of the array. -/
def readItems : Nat → List Char → Option (List Json × List Char)
  | 0, _ => none
  | fuel + 1, cs =>
    match readValue fuel cs with
    | none => none
    | some (j, cs) =>
      match skipBlanks cs with
      | ']' :: cs => some ([j], cs)
      | ',' :: cs => (readItems fuel cs).map fun (js, cs) => (j :: js, cs)
      | _ => none

/-- One or more entries and the end of the object; no entries if a key stands for no text. -/
def readEntries : Nat → List Char → Option (Option (List (String × Json)) × List Char)
  | 0, _ => none
  | fuel + 1, cs =>
    match skipBlanks cs with
    | '"' :: cs =>
      match readString none cs with
      | none => none
      | some (k, cs) =>
        match skipBlanks cs with
        | ':' :: cs =>
          match readValue fuel cs with
          | none => none
          | some (j, cs) =>
            let entry := k.map fun k => (String.ofList k, j)
            match skipBlanks cs with
            | '\x7d' :: cs => some (entry.map ([·]), cs)
            | ',' :: cs =>
              (readEntries fuel cs).map fun (es, cs) => (entry.bind fun e => es.map (e :: ·), cs)
            | _ => none
        | _ => none
    | _ => none

end

def readChars (cs : List Char) : Option Json :=
  match readValue (2 * cs.length + 2) cs with
  | some (j, rest) => if (skipBlanks rest).isEmpty then some j else none
  | none => none

def read (s : String) : Option Json := readChars s.toList

end LedgerWatch.Json
