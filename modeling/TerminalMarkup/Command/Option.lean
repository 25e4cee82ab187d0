/-
The commands and their options.
-/
import TerminalMarkup.Text.Basic

namespace TerminalMarkup.Command

/-- The commands. -/
inductive Verb where
  /-- Files, or standard input, to HTML. -/
  | convert
  /-- A log at an address to HTML. -/
  | fetch
  /-- The style sheet. -/
  | css
  deriving DecidableEq, Repr

/-- The name of a command. -/
def Verb.name : Verb → Text
  | .convert => "convert".toText
  | .fetch => "fetch".toText
  | .css => "css".toText

/-- The commands in order. -/
def Verb.all : List Verb := [.convert, .fetch, .css]

/-- The command of a name. -/
def Verb.ofName? (name : Text) : Option Verb := Verb.all.find? (·.name == name)

/-- The options, of the program and of its commands. -/
inductive Flag where
  | help
  | version
  | verbose
  | chunkSize
  | timeout
  | classes
  | noEscape
  | allowScheme
  | full
  | title
  | config
  | output
  deriving DecidableEq, Repr

namespace Flag

/-- The name of an option. -/
def longName : Flag → Text
  | .help => "--help".toText
  | .version => "--version".toText
  | .verbose => "--verbose".toText
  | .chunkSize => "--chunk-size".toText
  | .timeout => "--timeout".toText
  | .classes => "--classes".toText
  | .noEscape => "--no-escape".toText
  | .allowScheme => "--allow-scheme".toText
  | .full => "--full".toText
  | .title => "--title".toText
  | .config => "--config".toText
  | .output => "--output".toText

/-- The letter that an option may be given by. -/
def letter? : Flag → Option CodePoint
  | .verbose => some 'v'
  | .output => some 'o'
  | _ => none

/-- Whether an option has a value. -/
def takesValue : Flag → Bool
  | .chunkSize => true
  | .timeout => true
  | .allowScheme => true
  | .title => true
  | .config => true
  | .output => true
  | _ => false

/-- The names of an option as a message shows them. -/
def hint (f : Flag) : Text :=
  "'".toText ++ f.longName ++ "'".toText ++
    match f.letter? with
    | none => []
    | some c => " / '-".toText ++ [c] ++ "'".toText

/-- The options that may stand before the command. -/
def ofProgram : List Flag := [.version, .verbose, .help]

/-- The options that conversions have in common. -/
def shared : List Flag := [.classes, .noEscape, .allowScheme, .full, .title, .config, .output]

/-- The options of a command. -/
def ofVerb : Verb → List Flag
  | .convert => .chunkSize :: shared ++ [.help]
  | .fetch => .timeout :: shared ++ [.help]
  | .css => [.config, .help]

end Flag

end TerminalMarkup.Command
