/-
  LedgerWatch.Text.Quoted — a text or a single character in quotes, as error messages
  show what they were given.

  The quote in use, the backslash and the four characters with a letter of their own
  (`\0`, `\t`, `\r`, `\n`) are written behind a backslash, other characters that do not
  print as `\u{...}` with their code point in lower-case hexadecimal, and the rest as
  they are. The other kind of quote needs no backslash.
-/

import LedgerWatch.Text.Printable

namespace LedgerWatch.Text.Quoted

private def escapeAs (quote c : Char) : List Char :=
  if c = quote ∨ c = '\\' then ['\\', c]
  else if c = '\x00' then ['\\', '0']
  else if c = '\t' then ['\\', 't']
  else if c = '\r' then ['\\', 'r']
  else if c = '\n' then ['\\', 'n']
  else if isPrintable c then [c]
  else ['\\', 'u', '\x7b'] ++ Nat.toDigits 16 c.toNat ++ ['\x7d']

def string (s : String) : String := String.ofList ('"' :: s.toList.flatMap (escapeAs '"') ++ ['"'])

def char (c : Char) : String := String.ofList ('\'' :: escapeAs '\'' c ++ ['\''])

end LedgerWatch.Text.Quoted
