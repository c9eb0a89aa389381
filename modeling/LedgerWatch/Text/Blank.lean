/-
  LedgerWatch.Text.Blank — blanks around a value.

  A blank is a character with the Unicode property White_Space, which is wider than the
  ASCII blanks: it has the no-break space and the line separators in it.
-/

namespace LedgerWatch.Text

/-- The Unicode property White_Space. -/
def isBlank (c : Char) : Bool :=
  let n := c.toNat
  (9 ≤ n && n ≤ 13) || n == 0x20 || n == 0x85 || n == 0xa0 || n == 0x1680 || (0x2000 ≤ n && n ≤ 0x200a)
    || n == 0x2028 || n == 0x2029 || n == 0x202f || n == 0x205f || n == 0x3000

/-- Without the blanks at either end. -/
def trim (cs : List Char) : List Char := ((cs.dropWhile isBlank).reverse.dropWhile isBlank).reverse

end LedgerWatch.Text
