/-
The white space that may stand around a numeral.

It is the `White_Space` property of Unicode.  The four information separators
U+001C to U+001F, which some programs count as blank as well, are not in it.
-/
import TerminalMarkup.Text.Basic

namespace TerminalMarkup.Text

/-- White space in the sense of Unicode's `White_Space` property. -/
def isBlank (c : CodePoint) : Bool :=
  let n := c.toNat
  (0x09 ≤ n && n ≤ 0x0d) || n == 0x20 || n == 0x85 || n == 0xa0 || n == 0x1680
    || (0x2000 ≤ n && n ≤ 0x200a) || n == 0x2028 || n == 0x2029 || n == 0x202f
    || n == 0x205f || n == 0x3000

/-- The text without the blanks at either end. -/
def trim (t : Text) : Text :=
  ((t.dropWhile isBlank).reverse.dropWhile isBlank).reverse

example : isBlank ' ' ∧ isBlank '\t' ∧ ¬ isBlank '\x1c' ∧ ¬ isBlank 'x' := by decide

end TerminalMarkup.Text
