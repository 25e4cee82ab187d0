/-
Settings files.

A settings file is JSON in UTF-8, with any kind of line ending.  Loading tells
apart what is wrong with it: whether it cannot be read, is no UTF-8, is no JSON, is
no object, or has a member of the wrong type.
-/
import TerminalMarkup.Files
import TerminalMarkup.Json.Reader
import TerminalMarkup.Settings.Json
import TerminalMarkup.Text.Newline

namespace TerminalMarkup.Settings

/-- Why a settings file gives no settings. -/
inductive LoadFault where
  | unreadable (path : Text) (fault : Files.Fault)
  | undecodable (error : Utf8.Error)
  /-- The text is no JSON. -/
  | corrupt (path t : Text) (fault : Json.Fault)
  /-- An integer has too many digits to be read. -/
  | tooManyDigits (count : Nat)
  | notObject (path : Text)
  | wrongMember (fault : Fault)
  deriving DecidableEq, Repr

namespace LoadFault

/-- Whether the fault is one that a command explains and ends on; on the others it breaks off. -/
def isExplained : LoadFault → Bool
  | .unreadable _ .embeddedNul => false
  | .unreadable _ _ => true
  | .undecodable _ => false
  | .corrupt _ _ _ => true
  | .tooManyDigits _ => false
  | .notObject _ => true
  | .wrongMember .listAsScheme => false
  | .wrongMember .objectAsScheme => false
  | .wrongMember _ => true

/-- The fault in words. -/
def message : LoadFault → Text
  | .unreadable _ .embeddedNul => Files.Fault.embeddedNul.message
  | .unreadable path fault =>
    "Cannot read config ".toText ++ path ++ ": [Errno ".toText ++ Text.ofNat fault.number
      ++ "] ".toText ++ fault.message ++ ": ".toText ++ Quoted.encode path
  | .undecodable error => error.message
  | .corrupt path t fault => "Corrupt config ".toText ++ path ++ ": ".toText ++ fault.message t
  | .tooManyDigits count => (Json.Cause.tooManyDigits count).message
  | .notObject path => "Config ".toText ++ path ++ " must contain a JSON object".toText
  | .wrongMember fault => fault.message

end LoadFault

/-- The settings that a text gives, and what is to be told about them. -/
def ofText (path t : Text) : Except LoadFault (Settings × List Notice) :=
  match Json.read t with
  | .error ⟨.tooManyDigits count, _⟩ => .error (.tooManyDigits count)
  | .error fault => .error (.corrupt path t fault)
  | .ok (.object members) =>
    match ofMembers members with
    | .error fault => .error (.wrongMember fault)
    | .ok s => .ok (s, noticesFor members)
  | .ok _ => .error (.notObject path)

/-- The settings that the bytes of a file give. -/
def ofBytes (path : Text) (bytes : List UInt8) : Except LoadFault (Settings × List Notice) :=
  match Utf8.decode bytes with
  | .error e => .error (.undecodable e)
  | .ok t => ofText path (Newline.unify t)

/-- The settings in the file at a path. -/
def load (files : Files) (path : Text) : Except LoadFault (Settings × List Notice) :=
  match files.read path with
  | .error fault => .error (.unreadable path fault)
  | .ok bytes => ofBytes path bytes

/-- The files after settings have been written to the one at a path. -/
def save (files : Files) (path : Text) (s : Settings) : Except Files.Fault Files :=
  match files.target path with
  | .error fault => .error fault
  | .ok place => .ok (files.store place s.write)

end TerminalMarkup.Settings
