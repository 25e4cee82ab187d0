/-
Tokens: the units a stream of terminal output is made of.
-/
import TerminalMarkup.Text.Basic

namespace TerminalMarkup

/-- A unit of terminal output. -/
inductive Token where
  /-- Characters to be shown; at least one, and none of them the escape character. -/
  | text (chars : Text)
  /-- An escape character that introduces nothing. -/
  | strayEscape
  /-- A change of style. -/
  | rendition (params : Text)
  /-- A sequence without effect on what is shown. -/
  | control (params : Text)
  /-- A hyperlink. -/
  | hyperlink (url label : Text)
  deriving DecidableEq, Repr

/-- What stands at the front of a buffer. -/
inductive Reading where
  /-- The buffer is empty. -/
  | finished
  /-- A sequence begins here and its end has not come yet. -/
  | unfinished
  /-- A token, and the buffer after it. -/
  | token (t : Token) (rest : Text)
  deriving DecidableEq, Repr

end TerminalMarkup
