/-
  LedgerWatch.Json.Writer — the text of a document.

  No blanks, entries in the order they are held. In strings a quote and a backslash get
  a backslash, the control characters their short escape or `\u00` with two digits, and
  nothing else is escaped.
-/

import LedgerWatch.Json
import LedgerWatch.Decimal.Layout
import LedgerWatch.Text.Hex
import LedgerWatch.Text.Numeral

namespace LedgerWatch.Json

open LedgerWatch.Text

def escape (c : Char) : List Char :=
  if c = '"' then ['\\', '"']
  else if c = '\\' then ['\\', '\\']
  else if c = '\n' then ['\\', 'n']
  else if c = '\r' then ['\\', 'r']
  else if c = '\t' then ['\\', 't']
  else if c = '\x08' then ['\\', 'b']
  else if c = '\x0c' then ['\\', 'f']
  else if c.toNat < 32 then ['\\', 'u', '0', '0', Hex.digit (c.toNat / 16), Hex.digit (c.toNat % 16)]
  else [c]

def writeString (s : String) : List Char := '"' :: s.toList.flatMap escape ++ ['"']

def writeInt : Int → List Char
  | .ofNat n => Numeral.write n
  | .negSucc n => '-' :: Numeral.write (n + 1)

mutual

def writeChars : Json → List Char
  | .null | .garbled => ['n', 'u', 'l', 'l']
  | .bool true => ['t', 'r', 'u', 'e']
  | .bool false => ['f', 'a', 'l', 's', 'e']
  | .int n => writeInt n
  | .real x => (Decimal.Layout.compact.write x).toList
  | .str s => writeString s
  | .arr [] => ['[', ']']
  | .arr (j :: js) => '[' :: writeChars j ++ writeItems js
  | .obj [] => ['\x7b', '\x7d']
  | .obj ((k, j) :: es) => '\x7b' :: writeString k ++ ':' :: writeChars j ++ writeEntries es

/-- The items after the first, and the end of the array. -/
def writeItems : List Json → List Char
  | [] => [']']
  | j :: js => ',' :: writeChars j ++ writeItems js

/-- The entries after the first, and the end of the object. -/
def writeEntries : List (String × Json) → List Char
  | [] => ['\x7d']
  | (k, j) :: es => ',' :: writeString k ++ ':' :: writeChars j ++ writeEntries es

end

def write (j : Json) : String := String.ofList (writeChars j)

end LedgerWatch.Json
