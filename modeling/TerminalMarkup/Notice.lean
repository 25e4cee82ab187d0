/-
What the library reports besides its results.

A notice is a value that the operations return; how it is worded, and which part
of the program it is filed under, is decided here and nowhere else.
-/
import TerminalMarkup.Text.Quoted

namespace TerminalMarkup

/-- Something worth telling. -/
inductive Notice where
  /-- Settings have keys that mean nothing. -/
  | unknownKeys (keys : List Text)
  /-- An escape character that introduces nothing was dropped; the buffer began with `ahead`. -/
  | strayEscape (ahead : Text)
  /-- A sequence was still unfinished at the end of the stream. -/
  | unterminated (ahead : Text)
  /-- A hyperlink was dropped because its address may not be linked to. -/
  | disallowedLink (url : Text)
  deriving DecidableEq, Repr

namespace Notice

/-- How urgent a notice is. -/
inductive Level where
  | warning
  | debug
  deriving DecidableEq, Repr

/-- The level of a notice. -/
def level : Notice → Level
  | .unknownKeys _ => .warning
  | _ => .debug

/-- The level as a word. -/
def Level.word : Level → Text
  | .warning => "WARNING".toText
  | .debug => "DEBUG".toText

/-- The channel a notice is filed under. -/
def channel : Notice → Text
  | .unknownKeys _ => "ansihtml.config".toText
  | .strayEscape _ => "ansihtml.scanner".toText
  | .unterminated _ => "ansihtml.converter".toText
  | .disallowedLink _ => "ansihtml.renderers".toText

/-- The notice in words. -/
def message : Notice → Text
  | .unknownKeys keys => "Ignoring unknown config keys: ".toText ++ ", ".toText.intercalate keys
  | .strayEscape ahead => "Skipping unrecognized escape: ".toText ++ Quoted.encode ahead
  | .unterminated ahead =>
    "Unterminated sequence at end of stream: ".toText ++ Quoted.encode ahead
  | .disallowedLink url =>
    "Dropping hyperlink with disallowed scheme: ".toText ++ Quoted.encode url

/-- The notice as a line of a log. -/
def line (n : Notice) : Text :=
  n.level.word ++ ":".toText ++ n.channel ++ ":".toText ++ n.message

/-- The notices that are shown: warnings always, the rest only on request. -/
def shown (verbose : Bool) (notices : List Notice) : List Notice :=
  notices.filter fun n => verbose || n.level == .warning

end Notice

end TerminalMarkup
