/-
The commands as functions of the world they run in.

The world is what a run can see: the files, standard input and what comes of
requests.  An outcome is all that a run leaves behind.  Nothing happens on the way:
a command reads what it needs, computes its result, and only then is there anything
to print or a file to be written.  A result with a surrogate in it has no bytes, so it can
be neither printed nor written; but that shows when the file is open, and open is empty.

Left out are the limits of a machine: memory, how deeply calls can be nested, room for what
is written, and time.  So is what others do meanwhile, and all help but the line of usage.
Standard output is no terminal, and on standard error a surrogate stands as it is.
-/
import TerminalMarkup.Command.Plain
import TerminalMarkup.Command.Usage
import TerminalMarkup.Converter
import TerminalMarkup.Download
import TerminalMarkup.Html.Page
import TerminalMarkup.Html.Stylesheet
import TerminalMarkup.Settings.File
import TerminalMarkup.Text.Numeral

namespace TerminalMarkup.Command

/-- What a run can see. -/
structure World where
  files : Files := {}
  stdin : List UInt8 := []
  respond : Download.Request → Download.Reply

/-- Why a run breaks off without an explanation of its own. -/
inductive Crash where
  | loading (fault : Settings.LoadFault)
  | download (fault : Download.Fault)
  | writing (fault : Files.Fault)
  /-- A path has a NUL in it. -/
  | embeddedNul
  /-- The size of a chunk is no signed 64-bit number. -/
  | chunkTooWide
  /-- A result has a surrogate in it. -/
  | unencodable
  deriving DecidableEq, Repr

/-- How a run ends. -/
inductive Ending where
  /-- Well: with something to be printed, and perhaps a file to be written. -/
  | done (printed : Text) (written : Option (Files.Location × Text))
  /-- With the usage of a part of the command line. -/
  | help (scope : Scope) (exitCode : Nat)
  /-- With an error of usage. -/
  | misused (scope : Scope) (fault : UsageFault)
  /-- With an explanation. -/
  | refused (exitCode : Nat) (message : Text)
  | broken (crash : Crash)
  /-- With a result that has no bytes.  The file that it was to be written to, if there is one, has
  been made empty. -/
  | unwritten (emptied : Option Files.Location)
  deriving DecidableEq, Repr

/-- What a run leaves behind. -/
structure Outcome where
  ending : Ending
  notices : List Notice := []
  deriving DecidableEq, Repr

namespace Outcome

/-- The exit code. -/
def exitCode (o : Outcome) : Nat :=
  match o.ending with
  | .done _ _ => 0
  | .help _ code => code
  | .misused _ _ => 2
  | .refused code _ => code
  | .broken _ => 1
  | .unwritten _ => 1

/-- What is on standard output. -/
def stdout (o : Outcome) : Text :=
  match o.ending with
  | .done printed _ => Plain.plain printed
  | .help scope 0 => scope.usage
  | _ => []

/-- What is on standard error, notices apart. -/
def stderr (o : Outcome) : Text :=
  match o.ending with
  | .misused scope fault => Plain.plain (fault.report scope)
  | .refused _ message => Plain.plain ("Error: ".toText ++ message ++ "\n".toText)
  | .help scope (_ + 1) => scope.usage
  | _ => []

/-- Why the run broke off, if it did. -/
def crash? (o : Outcome) : Option Crash :=
  match o.ending with
  | .broken crash => some crash
  | .unwritten _ => some .unencodable
  | _ => none

/-- The files after the run. -/
def files (o : Outcome) (before : Files) : Files :=
  match o.ending with
  | .done _ (some (place, t)) => before.store place t
  | .unwritten (some place) => before.put place []
  | _ => before

end Outcome

/-! ### The values of options -/

/-- The exit code when settings cannot be loaded. -/
def settingsExit : Nat := 1

/-- The exit code when a log cannot be downloaded. -/
def downloadExit : Nat := 2

/-- The size of a chunk when none is given. -/
def defaultChunkSize : Int := 4096

/-- What is wrong with the value of an option, if anything is. -/
def valueFault? (files : Files) (flag : Flag) (value : Text) : Option (UsageFault ⊕ Crash) :=
  match flag with
  | .chunkSize =>
    match Numeral.readInt? value with
    | none => some (.inl (.notInteger flag value))
    | some n => if n < 1 then some (.inl (.tooSmall flag n)) else none
  | .timeout => if Numeral.isReal value then none else some (.inl (.notReal flag value))
  | .config | .output =>
    match files.find value with
    | .error .embeddedNul => some (.inr .embeddedNul)
    | .ok (_, .directory) => some (.inl (.directoryForFile flag value))
    | _ => none
  | _ => none

/-- The ending that the first option with a bad value brings about, if there is one. -/
def badValue? (files : Files) (verb : Verb) (a : Arguments) : Option Ending :=
  (a.flags.findSome? fun flag => (a.value? flag).bind (valueFault? files flag)).map fun
    | .inl fault => .misused (.verb verb) fault
    | .inr crash => .broken crash

/-! ### Settings -/

/-- The options that change settings. -/
structure Overrides where
  classes : Bool := false
  noEscape : Bool := false
  schemes : List Text := []
  deriving DecidableEq, Repr

/-- The settings after the changes. -/
def Overrides.apply (o : Overrides) (s : Settings) : Settings :=
  { s with
    useClasses := s.useClasses || o.classes
    escapeHtml := s.escapeHtml && !o.noEscape
    allowList := if o.schemes = [] then s.allowList else .ofSchemes o.schemes }

/-- The changes that arguments ask for. -/
def Arguments.overrides (a : Arguments) : Overrides :=
  { classes := a.has .classes, noEscape := a.has .noEscape, schemes := a.values .allowScheme }

/-- The ending on settings that cannot be loaded. -/
def loadEnding (fault : Settings.LoadFault) : Ending :=
  if fault.isExplained then .refused settingsExit fault.message else .broken (.loading fault)

/-- The settings for a run, and what is to be told about them. -/
def settingsFor (files : Files) (path : Option Text) (overrides : Overrides) :
    Except Ending (Settings × List Notice) :=
  match path with
  | none => .ok (overrides.apply {}, [])
  | some path =>
    match Settings.load files (Files.plainPath path) with
    | .ok (s, notices) => .ok (overrides.apply s, notices)
    | .error fault => .error (loadEnding fault)

/-! ### Results -/

/-- How a result is presented. -/
structure Presentation where
  full : Bool := false
  title : Text := []
  output : Option Text := none
  deriving DecidableEq, Repr

/-- The presentation that arguments ask for. -/
def Arguments.presentation (a : Arguments) : Presentation :=
  { full := a.has .full, title := (a.value? .title).getD [], output := a.value? .output }

/-- The result in full: a page if one is asked for, and otherwise the body alone. -/
def document (settings : Settings) (p : Presentation) (body : Text) : Text :=
  if p.full then
    let css := if settings.useClasses then Html.stylesheet settings else []
    Html.Page.render { title := p.title, css, body }
  else body

/-- Ends with a text, which goes to the output file or is printed, if it has bytes. -/
def emit (files : Files) (output : Option Text) (t : Text) : Ending :=
  match output with
  | none => if (Utf8.encode? (Plain.plain t)).isSome then .done t none else .unwritten none
  | some path =>
    match files.target (Files.plainPath path) with
    | .ok place =>
      if (Utf8.encode? t).isSome then .done [] (some (place, t)) else .unwritten (some place)
    | .error fault => .broken (.writing fault)

/-! ### Convert -/

/-- The text of a file: bytes that are no UTF-8 are replaced, and line endings made one. -/
def inputText (bytes : List UInt8) : Text := Newline.unify (Utf8.decodeLossy bytes)

/-- The operand that stands for standard input. -/
def stdinName : Text := ['-']

/-- The inputs that operands name: standard input, if they name none. -/
def Arguments.inputNames (a : Arguments) : List Text :=
  if a.operands = [] then [stdinName] else a.operands

/-- The ending on an input that cannot be read. -/
def inputEnding (name : Text) : Files.Fault → Ending
  | .embeddedNul => .broken .embeddedNul
  | fault => .misused (.verb .convert) (.badInput name fault)

/-- The texts of the inputs that operands name.  Standard input can be read once; named again it
is empty. -/
def inputs (w : World) : List Text → Except Ending (List Text)
  | [] => .ok []
  | name :: rest =>
    if name = stdinName then
      (inputs { w with stdin := [] } rest).map (inputText w.stdin :: ·)
    else
      match w.files.read name with
      | .ok bytes => (inputs w rest).map (inputText bytes :: ·)
      | .error fault => .error (inputEnding name fault)

/-- The conversion of texts that follow each other, each cut into chunks. -/
def convertTexts (settings : Settings) (chunkSize : Nat) (texts : List Text) : Output :=
  let chunks := texts.flatMap (Text.pieces chunkSize)
  let (outs, _) := Converter.run { settings } (chunks.map .convert ++ [.finish])
  ⟨outs.flatMap Output.html, outs.flatMap Output.notices⟩

/-- The size of a chunk that arguments ask for. -/
def Arguments.chunkSize (a : Arguments) : Int :=
  ((a.value? .chunkSize).bind Numeral.readInt?).getD defaultChunkSize

/-- The command `convert`. -/
def convert (w : World) (a : Arguments) : Outcome :=
  match badValue? w.files .convert a with
  | some ending => { ending }
  | none =>
    match inputs w a.inputNames with
    | .error ending => { ending }
    | .ok texts =>
      match settingsFor w.files (a.value? .config) a.overrides with
      | .error ending => { ending }
      | .ok (settings, notices) =>
        if !Numeral.fitsWord a.chunkSize then { ending := .broken .chunkTooWide, notices }
        else
          let out := convertTexts settings a.chunkSize.toNat texts
          { ending := emit w.files a.presentation.output
              (document settings a.presentation out.html)
            notices := notices ++ out.notices }

/-! ### Fetch -/

/-- The title of a page that is made from an address, unless another is given. -/
def Presentation.titled (p : Presentation) (url : Text) : Presentation :=
  { p with title := if p.title = [] then url else p.title }

/-- The ending on a log that cannot be downloaded. -/
def downloadEnding (fault : Download.Fault) : Ending :=
  if fault.isExplained then .refused downloadExit fault.message else .broken (.download fault)

/-- The command `fetch`. -/
def fetch (w : World) (a : Arguments) : Outcome :=
  match badValue? w.files .fetch a with
  | some ending => { ending }
  | none =>
    match a.operands with
    | [] => { ending := .misused (.verb .fetch) .missingUrl }
    | _ :: extra :: more =>
      { ending := .misused (.verb .fetch) (.extraOperands (extra :: more)) }
    | [url] =>
      match settingsFor w.files (a.value? .config) a.overrides with
      | .error ending => { ending }
      | .ok (settings, notices) =>
        match Download.fetch w.respond url [] with
        | .error fault => { ending := downloadEnding fault, notices }
        | .ok t =>
          let out := Converter.convertAll settings t
          { ending := emit w.files a.presentation.output
              (document settings (a.presentation.titled url) out.html)
            notices := notices ++ out.notices }

/-! ### The style sheet -/

/-- The command `css`. -/
def css (w : World) (a : Arguments) : Outcome :=
  match badValue? w.files .css a with
  | some ending => { ending }
  | none =>
    if a.operands ≠ [] then { ending := .misused (.verb .css) (.extraOperands a.operands) }
    else
      match settingsFor w.files (a.value? .config) {} with
      | .error ending => { ending }
      | .ok (settings, notices) =>
        { ending := emit w.files none (Html.stylesheet settings), notices }

/-! ### The program -/

/-- A command with its arguments. -/
def runVerb (w : World) (verb : Verb) (arguments : List Text) : Outcome :=
  match Arguments.read (Flag.ofVerb verb) true arguments with
  | .error fault => { ending := .misused (.verb verb) (.argument fault) }
  | .ok a =>
    if a.has .help then { ending := .help (.verb verb) 0 }
    else match verb with
      | .convert => convert w a
      | .fetch => fetch w a
      | .css => css w a

/-- The ending that options before the command bring about by themselves, if they do. -/
def Arguments.ending? (a : Arguments) : Option Ending :=
  (a.given.find? fun g => g.flag == .version || g.flag == .help).map fun
    | ⟨.version, _⟩ => .done versionText none
    | _ => .help .program 0

/-- The ending when no command has the name that the operands begin with.  After `--` the name may
look like an option; it is taken for one then. -/
def endingWithout (name : Text) (operands : List Text) : Ending :=
  match Arguments.read Flag.ofProgram false operands with
  | .error fault => .misused .program (.argument fault)
  | .ok a => a.ending?.getD (.misused .program (.unknownCommand name))

/-- The program with its arguments.  Notices that are not asked for are left out. -/
def run (w : World) (arguments : List Text) : Outcome :=
  match Arguments.read Flag.ofProgram false arguments with
  | .error fault => { ending := .misused .program (.argument fault) }
  | .ok a =>
    match a.ending?, a.operands with
    | some ending, _ => { ending }
    | none, [] =>
      { ending := if arguments = [] then .help .program 2 else .misused .program .noCommand }
    | none, name :: rest =>
      match Verb.ofName? name with
      | none => { ending := endingWithout name (name :: rest) }
      | some verb =>
        let o := runVerb w verb rest
        { o with notices := Notice.shown (a.has .verbose) o.notices }

end TerminalMarkup.Command
