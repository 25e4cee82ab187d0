/-
The quoted form in which messages show a text.

The marks are apostrophes, or quotation marks when the text has an apostrophe
and no quotation mark.  The mark in use and the backslash are escaped, line feed,
carriage return and tab have short escapes, and every other character that is
not printable is written as its code point in two, four or eight digits.
-/
import TerminalMarkup.Text.Printable

namespace TerminalMarkup.Quoted

open Text

/-- The mark `'`. -/
def apostrophe : CodePoint := '\x27'

/-- The mark `"`. -/
def quotationMark : CodePoint := '\x22'

/-- The mark a text is quoted with. -/
def markFor (t : Text) : CodePoint :=
  if t.contains apostrophe && !t.contains quotationMark then quotationMark else apostrophe

/-- One character as it is written between two `mark`s. -/
def encodeChar (mark c : CodePoint) : Text :=
  if c = mark ∨ c = '\\' then ['\\', c]
  else if c = '\n' then ['\\', 'n']
  else if c = '\r' then ['\\', 'r']
  else if c = '\t' then ['\\', 't']
  else if isPrintable c then [c]
  else if c.toNat < 0x100 then '\\' :: 'x' :: hex 2 c.toNat
  else if c.toNat < 0x10000 then '\\' :: 'u' :: hex 4 c.toNat
  else '\\' :: 'U' :: hex 8 c.toNat

/-- A text in its marks. -/
def encode (t : Text) : Text :=
  let mark := markFor t
  mark :: t.flatMap (encodeChar mark) ++ [mark]

example : encode "\x1b[1m".toText = "'\\x1b[1m'".toText := by decide +kernel
example : encode "it's".toText = "\"it's\"".toText := by decide +kernel

end TerminalMarkup.Quoted
