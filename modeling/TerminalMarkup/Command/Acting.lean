/-
A run as it goes on.

`run` says what a run comes to.  `act` is the same run taken step by step, in the order in
which things are looked at, read, told, written and printed, on a scene that keeps all that
was done to it, whatever happens later.  Nothing is taken back when a run is cut short.
-/
import TerminalMarkup.Command.Run

namespace TerminalMarkup.Command

/-! ### Scenes and jobs -/

/-- What a run works on: what it can see, and what it has left behind so far. -/
structure Scene where
  files : Files
  stdin : List UInt8
  stdout : Text := []
  stderr : Text := []
  notices : List Notice := []
  /-- Whether all notices are shown. -/
  verbose : Bool := false

/-- How a run is cut short. -/
inductive Halt where
  | exit (code : Nat)
  | crash (crash : Crash)
  deriving DecidableEq, Repr

/-- A part of a run. -/
abbrev Job := ExceptT Halt (StateM Scene)

/-- What comes of a job, and the scene after it. -/
def Job.play {α : Type} (job : Job α) (s : Scene) : Except Halt α × Scene := job.run.run s

/-- Prints a text as it is. -/
def print (t : Text) : Job Unit := modify fun s => { s with stdout := s.stdout ++ t }

/-- Prints a text without control sequences, if what is left has bytes. -/
def echo (t : Text) : Job Unit :=
  if (Utf8.encode? (Plain.plain t)).isSome then print (Plain.plain t)
  else throw (.crash .unencodable)

/-- Prints a text on standard error. -/
def complain (t : Text) : Job Unit := modify fun s => { s with stderr := s.stderr ++ t }

/-- Tells notices, if they are shown. -/
def tell (notices : List Notice) : Job Unit :=
  modify fun s => { s with notices := s.notices ++ Notice.shown s.verbose notices }

/-- Makes the file at a path empty, or makes a new one, and gives its place. -/
def openOutput (path : Text) : Job Files.Location := do
  match (← get).files.target (Files.plainPath path) with
  | .error fault => throw (.crash (.writing fault))
  | .ok place =>
    modify fun s => { s with files := s.files.put place [] }
    return place

/-- Writes a text to a file that has been opened, if it has bytes. -/
def writeOutput (place : Files.Location) (t : Text) : Job Unit :=
  match Utf8.encode? t with
  | none => throw (.crash .unencodable)
  | some bytes => modify fun s => { s with files := s.files.put place bytes }

/-- Cuts a run short with an explanation, or with what was asked for. -/
def stop {α : Type} : Ending → Job α
  | .done printed written => do
    print (Plain.plain printed)
    match written with
    | none => pure ()
    | some (place, t) => modify fun s => { s with files := s.files.store place t }
    throw (.exit 0)
  | .help scope 0 => do
    print scope.usage
    throw (.exit 0)
  | .help scope (code + 1) => do
    complain scope.usage
    throw (.exit (code + 1))
  | .misused scope fault => do
    complain (Plain.plain (fault.report scope))
    throw (.exit 2)
  | .refused code message => do
    complain (Plain.plain ("Error: ".toText ++ message ++ "\n".toText))
    throw (.exit code)
  | .broken crash => throw (.crash crash)
  | .unwritten emptied => do
    match emptied with
    | none => pure ()
    | some place => modify fun s => { s with files := s.files.put place [] }
    throw (.crash .unencodable)

/-! ### The parts of commands -/

/-- Ends the run if the value of an option is bad. -/
def checkValues (verb : Verb) (a : Arguments) : Job Unit := do
  match badValue? (← get).files verb a with
  | some ending => stop ending
  | none => pure ()

/-- An input that has been opened. -/
inductive Handle where
  | stdin
  | file (place : Files.Location)
  deriving DecidableEq, Repr

/-- The address that `fetch` has for its operand. -/
def takeUrl : List Text → Job Text
  | [] => stop (.misused (.verb .fetch) .missingUrl)
  | [url] => pure url
  | _ :: extra :: more => stop (.misused (.verb .fetch) (.extraOperands (extra :: more)))

/-- Ends the run if `css` has operands. -/
def takeNone (operands : List Text) : Job Unit :=
  if operands = [] then pure () else stop (.misused (.verb .css) (.extraOperands operands))

/-- The size of a chunk, which nothing can be read with if it is too wide. -/
def takeSize (size : Int) : Job Nat :=
  if Numeral.fitsWord size then pure size.toNat else stop (.broken .chunkTooWide)

/-- Opens an input. -/
def openInput (name : Text) : Job Handle := do
  if name = stdinName then
    return .stdin
  match (← get).files.find name with
  | .ok (place, .file _) => return .file place
  | .ok (_, .directory) => stop (inputEnding name .isDirectory)
  | .error fault => stop (inputEnding name fault)

/-- Opens inputs in turn. -/
def openInputs : List Text → Job (List Handle)
  | [] => pure []
  | name :: rest => do
    let handle ← openInput name
    let handles ← openInputs rest
    return handle :: handles

/-- Reads what there is in an input at this time. -/
def readInput : Handle → Job Text
  | .stdin => do
    let bytes := (← get).stdin
    modify fun s => { s with stdin := [] }
    return inputText bytes
  | .file place => do
    match (← get).files.at? place with
    | some (.file bytes) => return inputText bytes
    | _ => return []

/-- Loads settings and tells what is to be told about them. -/
def loadSettings (path : Option Text) (overrides : Overrides) : Job Settings := do
  match settingsFor (← get).files path overrides with
  | .error ending => stop ending
  | .ok (settings, notices) =>
    tell notices
    return settings

/-- Takes steps with a converter, and gives the HTML. -/
def convertSteps (c : Converter) : List Converter.Step → Job (Text × Converter)
  | [] => pure ([], c)
  | step :: rest => do
    let (out, c) := c.step step
    tell out.notices
    let (html, c) ← convertSteps c rest
    return (out.html ++ html, c)

/-- Reads and converts inputs in turn, chunk by chunk, and ends the stream. -/
def convertInputs (size : Nat) (c : Converter) : List Handle → Job Text
  | [] => do
    let (html, _) ← convertSteps c [.finish]
    return html
  | handle :: rest => do
    let t ← readInput handle
    let (front, c) ← convertSteps c ((Text.pieces size t).map .convert)
    let back ← convertInputs size c rest
    return front ++ back

/-- Downloads a log. -/
def download (respond : Download.Request → Download.Reply) (url : Text) : Job Text :=
  match Download.fetch respond url [] with
  | .error fault => stop (downloadEnding fault)
  | .ok t => pure t

/-- Writes a text to the output file, or prints it. -/
def deliver (output : Option Text) (t : Text) : Job Unit :=
  match output with
  | none => echo t
  | some path => do
    let place ← openOutput path
    writeOutput place t

/-! ### The commands -/

/-- The command `convert`, as it goes on. -/
def actConvert (a : Arguments) : Job Unit := do
  checkValues .convert a
  let handles ← openInputs a.inputNames
  let settings ← loadSettings (a.value? .config) a.overrides
  let size ← takeSize a.chunkSize
  let html ← convertInputs size { settings } handles
  deliver (a.value? .output) (document settings a.presentation html)

/-- The command `fetch`, as it goes on. -/
def actFetch (respond : Download.Request → Download.Reply) (a : Arguments) : Job Unit := do
  checkValues .fetch a
  let url ← takeUrl a.operands
  let settings ← loadSettings (a.value? .config) a.overrides
  let t ← download respond url
  let (html, _) ← convertSteps { settings } [.convert t, .finish]
  deliver (a.value? .output) (document settings (a.presentation.titled url) html)

/-- The command `css`, as it goes on. -/
def actCss (a : Arguments) : Job Unit := do
  checkValues .css a
  takeNone a.operands
  let settings ← loadSettings (a.value? .config) {}
  echo (Html.stylesheet settings)

/-- A command with its arguments, as it goes on. -/
def actVerb (respond : Download.Request → Download.Reply) (verb : Verb) (arguments : List Text) :
    Job Unit :=
  match Arguments.read (Flag.ofVerb verb) true arguments with
  | .error fault => stop (.misused (.verb verb) (.argument fault))
  | .ok a =>
    if a.has .help then stop (.help (.verb verb) 0)
    else match verb with
      | .convert => actConvert a
      | .fetch => actFetch respond a
      | .css => actCss a

/-- The program with its arguments, as it goes on. -/
def act (respond : Download.Request → Download.Reply) (arguments : List Text) : Job Unit :=
  match Arguments.read Flag.ofProgram false arguments with
  | .error fault => stop (.misused .program (.argument fault))
  | .ok a =>
    match a.ending?, a.operands with
    | some ending, _ => stop ending
    | none, [] => stop (if arguments = [] then .help .program 2 else .misused .program .noCommand)
    | none, name :: rest =>
      match Verb.ofName? name with
      | none => stop (endingWithout name (name :: rest))
      | some verb => do
        modify fun s => { s with verbose := a.has .verbose }
        actVerb respond verb rest

end TerminalMarkup.Command
