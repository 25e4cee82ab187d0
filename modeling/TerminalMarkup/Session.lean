/-
A session: a converter, and a caller who holds its settings.

A caller does not hand its settings over.  It hands over a reference to an object that
has them, keeps that object, and may change it whenever it likes; and what such an
object has for an allow-list is a reference again, which another may have too.  The
converter keeps the reference it was given, and so does the part of it that renders.
Nothing is copied, so what a call finds in force is what the objects hold when the call
is made.

The converter itself is in `Converter`; what is added here is where it looks for its
settings.
-/
import TerminalMarkup.Converter

namespace TerminalMarkup

namespace Session

/-- A reference to an allow-list. -/
structure ListRef where
  id : Nat
  deriving DecidableEq, Repr

/-- A reference to settings. -/
structure SettingsRef where
  id : Nat
  deriving DecidableEq, Repr

/-- What an object of settings holds: the settings, with a reference for the allow-list. -/
structure Held where
  escapeHtml : Bool
  useClasses : Bool
  allowList : ListRef
  boldStyle : Text
  faintStyle : Text
  italicStyle : Text
  underlineStyle : Text
  deriving DecidableEq, Repr

/-- All objects; one that is made later is among them already and is as it will be made. -/
structure Objects where
  settings : SettingsRef → Held
  lists : ListRef → AllowList

namespace Objects

/-- The settings that a reference leads to. -/
def read (objects : Objects) (ref : SettingsRef) : Settings :=
  let held := objects.settings ref
  { escapeHtml := held.escapeHtml
    useClasses := held.useClasses
    allowList := objects.lists held.allowList
    boldStyle := held.boldStyle
    faintStyle := held.faintStyle
    italicStyle := held.italicStyle
    underlineStyle := held.underlineStyle }

/-- The objects after one of settings has been changed. -/
def writeSettings (objects : Objects) (ref : SettingsRef) (held : Held) : Objects :=
  { objects with settings := fun r => if r = ref then held else objects.settings r }

/-- The objects after an allow-list has been changed. -/
def writeList (objects : Objects) (ref : ListRef) (list : AllowList) : Objects :=
  { objects with lists := fun r => if r = ref then list else objects.lists r }

end Objects

/-- A call that reads from the stream. -/
inductive Call where
  /-- A chunk arrives. -/
  | convert (chunk : Text)
  /-- The stream ends. -/
  | finish
  deriving DecidableEq, Repr

/-- What a caller can do. -/
inductive Action where
  | call (call : Call)
  /-- The stream is started anew. -/
  | reset
  /-- An object of settings, in force or not, is made to hold something else. -/
  | changeSettings (ref : SettingsRef) (held : Held)
  /-- So is an allow-list. -/
  | changeList (ref : ListRef) (list : AllowList)
  /-- Another object of settings is put in force. -/
  | replace (ref : SettingsRef)
  deriving DecidableEq, Repr

/-- A call as a step of the converter. -/
def Call.step : Call → Converter.Step
  | .convert chunk => .convert chunk
  | .finish => .finish

end Session

/-- A converter with the references it keeps, and the objects they lead to. -/
structure Session where
  objects : Session.Objects
  /-- The settings as the converter refers to them. -/
  settings : Session.SettingsRef
  /-- The settings as its renderer refers to them. -/
  rendererSettings : Session.SettingsRef
  stream : Stream

namespace Session

/-- A new converter that is given settings. -/
def start (objects : Objects) (settings : SettingsRef) : Session :=
  { objects, settings, rendererSettings := settings, stream := {} }

/-- The settings in force. -/
def inForce (s : Session) : Settings := s.objects.read s.settings

/-- The converter at work: it renders by what its renderer refers to. -/
def converter (s : Session) : Converter := ⟨s.objects.read s.rendererSettings, s.stream⟩

/-- One action: the output and the session after it. -/
def step (s : Session) : Action → Output × Session
  | .call call =>
    let (out, c) := s.converter.step call.step
    (out, { s with stream := c.stream })
  | .reset =>
    let (out, c) := s.converter.step .reset
    (out, { s with stream := c.stream })
  | .changeSettings ref held => ({}, { s with objects := s.objects.writeSettings ref held })
  | .changeList ref list => ({}, { s with objects := s.objects.writeList ref list })
  | .replace ref => ({}, { s with settings := ref, rendererSettings := ref })

/-- Actions in turn: the output of each, and the session after the last. -/
def run (s : Session) : List Action → List Output × Session
  | [] => ([], s)
  | a :: rest =>
    let (out, s) := s.step a
    let (outs, s) := run s rest
    (out :: outs, s)

end Session

end TerminalMarkup
