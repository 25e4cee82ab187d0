/-
One line ending for all.

A file may end its lines with a line feed, a carriage return or both; a text that
is read from a file has line feeds only.
-/
import TerminalMarkup.Text.Basic

namespace TerminalMarkup.Newline

/--
`unify` in the middle of a text: `done` is what is written so far, in reverse, and
`afterReturn` says whether the last character read was a carriage return, so that
a line feed here belongs to it.
-/
def unifyFrom (afterReturn : Bool) (done : Text) : Text → Text
  | [] => done.reverse
  | c :: rest =>
    if c = '\r' then unifyFrom true ('\n' :: done) rest
    else if c = '\n' ∧ afterReturn then unifyFrom false done rest
    else unifyFrom false (c :: done) rest

/-- The text with every `\r\n`, and every `\r` that stands alone, made a `\n`. -/
def unify (t : Text) : Text := unifyFrom false [] t

example : unify "a\r\nb\rc\n\r".toText = "a\nb\nc\n\n".toText := by decide

theorem unifyFrom_of_not_mem {t : Text} (h : ('\r' : CodePoint) ∉ t) (done : Text) :
    unifyFrom false done t = done.reverse ++ t := by
  induction t generalizing done with
  | nil => simp [unifyFrom]
  | cons c rest ih =>
    simp only [List.mem_cons, not_or] at h
    simp [unifyFrom, Ne.symm h.1, ih h.2]

/-- A text without carriage returns is left as it is. -/
theorem unify_of_not_mem {t : Text} (h : ('\r' : CodePoint) ∉ t) : unify t = t := by
  simp [unify, unifyFrom_of_not_mem h]

end TerminalMarkup.Newline
