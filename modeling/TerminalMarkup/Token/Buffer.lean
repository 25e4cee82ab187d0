/-
A buffer of unread output, and what can be done to it one call at a time.

`readAll` reads on for as long as it can.  Here the calls are separate, so that
feeding and reading may alternate in any way.
-/
import TerminalMarkup.Token.Reader

namespace TerminalMarkup.Buffer

/-- A call. -/
inductive Step where
  /-- Characters arrive. -/
  | feed (chars : Text)
  /-- The next token is read, if there is one. -/
  | next
  /-- One character is dropped, if there is one. -/
  | skip
  /-- All characters are dropped. -/
  | reset
  deriving DecidableEq, Repr

/-- What a call gives back. -/
inductive Answer where
  | done
  | reading (r : Reading)
  | skipped (chars : Text)
  deriving DecidableEq, Repr

/-- What is left of a buffer after a reading. -/
def after (buffer : Text) : Reading → Text
  | .token _ rest => rest
  | _ => buffer

/-- One call: the answer and the buffer after it. -/
def step (buffer : Text) : Step → Answer × Text
  | .feed chars => (.done, buffer ++ chars)
  | .next => (.reading (Token.read buffer), after buffer (Token.read buffer))
  | .skip => (.skipped (buffer.take 1), buffer.drop 1)
  | .reset => (.done, [])

/-- Calls in turn: their answers, and the buffer after the last. -/
def run (buffer : Text) : List Step → List Answer × Text
  | [] => ([], buffer)
  | s :: rest =>
    let (answer, buffer) := step buffer s
    let (answers, buffer) := run buffer rest
    (answer :: answers, buffer)

end TerminalMarkup.Buffer
