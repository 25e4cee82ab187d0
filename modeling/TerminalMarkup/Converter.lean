/-
The converter: a stream of terminal output and the settings its pieces are written
under.

The settings may change at any time.  A piece is written under the settings in
force when the call that completes it is made, and the stream never looks at them.
-/
import TerminalMarkup.Html.Render
import TerminalMarkup.Notice
import TerminalMarkup.Stream

namespace TerminalMarkup

/-- The HTML of a piece. -/
def Piece.html (settings : Settings) : Piece → Text
  | .text style chars => Html.renderText settings style chars
  | .hyperlink url label => Html.renderHyperlink settings url label
  | .strayEscape _ => []
  | .unterminated _ => []

/-- What is to be told about a piece. -/
def Piece.notice? (settings : Settings) : Piece → Option Notice
  | .text _ _ => none
  | .hyperlink url _ => if Html.isAllowed settings url then none else some (.disallowedLink url)
  | .strayEscape ahead => some (.strayEscape ahead)
  | .unterminated ahead => some (.unterminated ahead)

/-- What a call gives back. -/
structure Output where
  html : Text := []
  notices : List Notice := []
  deriving DecidableEq, Repr

/-- The output for pieces in order. -/
def Output.ofPieces (settings : Settings) (ps : List Piece) : Output :=
  ⟨ps.flatMap (Piece.html settings), ps.filterMap (Piece.notice? settings)⟩

/-- A stream and the settings in force. -/
structure Converter where
  settings : Settings := {}
  stream : Stream := {}
  deriving DecidableEq, Repr

namespace Converter

/-- What can be asked of a converter. -/
inductive Step where
  /-- A chunk arrives. -/
  | convert (chunk : Text)
  /-- The stream ends; another may follow in the style that is then in force. -/
  | finish
  /-- What is unread is forgotten and the style is plain again. -/
  | reset
  /-- One setting changes. -/
  | edit (e : Settings.Edit)
  /-- All settings are replaced. -/
  | replace (settings : Settings)
  deriving DecidableEq, Repr

/-- Whether part of a sequence is waiting for the rest. -/
def isPending (c : Converter) : Bool := !c.stream.buffer.isEmpty

/-- One step: the output and the converter after it. -/
def step (c : Converter) : Step → Output × Converter
  | .convert chunk =>
    let (ps, stream) := c.stream.convert chunk
    (.ofPieces c.settings ps, { c with stream })
  | .finish =>
    let (ps, stream) := c.stream.finish
    (.ofPieces c.settings ps, { c with stream })
  | .reset => ({}, { c with stream := {} })
  | .edit e => ({}, { c with settings := c.settings.edit e })
  | .replace settings => ({}, { c with settings })

/-- Steps in turn: the output of each, and the converter after the last. -/
def run (c : Converter) : List Step → List Output × Converter
  | [] => ([], c)
  | s :: rest =>
    let (out, c) := c.step s
    let (outs, c) := run c rest
    (out :: outs, c)

/-- A whole text in one call. -/
def convertAll (settings : Settings) (t : Text) : Output :=
  let (outs, _) := run { settings } [.convert t, .finish]
  ⟨outs.flatMap Output.html, outs.flatMap Output.notices⟩

end Converter

end TerminalMarkup
