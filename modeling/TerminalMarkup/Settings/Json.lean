/-
Settings as JSON.

Each setting is a member of an object and has a type of its own.  Reading takes
the members it knows, in a fixed order, stops at the first that has not its type,
and leaves a setting at its default when it has no member.  Members it does not
know are reported, once, and only when the rest is in order.
-/
import TerminalMarkup.Json.Printer
import TerminalMarkup.Notice
import TerminalMarkup.Settings.Basic
import TerminalMarkup.Settings.Schemes

namespace TerminalMarkup.Settings

/-! ### Names -/

def escapeHtmlKey : Text := "escape_html".toText
def useClassesKey : Text := "use_classes".toText
def allowListKey : Text := "url_allowlist".toText
def boldStyleKey : Text := "bold_style".toText
def faintStyleKey : Text := "faint_style".toText
def italicStyleKey : Text := "italic_style".toText
def underlineStyleKey : Text := "underline_style".toText

/-- The names that settings have. -/
def knownKeys : List Text :=
  [escapeHtmlKey, useClassesKey, allowListKey, boldStyleKey, faintStyleKey, italicStyleKey,
   underlineStyleKey]

/-! ### Faults -/

/-- Why an object gives no settings. -/
inductive Fault where
  | notBoolean (key : Text)
  | notText (key : Text)
  /-- The allow-list is neither an object nor a list. -/
  | notAllowList
  /-- The allow-list is an object with a value that is no boolean. -/
  | notVerdicts
  /-- The allow-list is a list that has a list in it. -/
  | listAsScheme
  /-- The allow-list is a list that has an object in it. -/
  | objectAsScheme
  deriving DecidableEq, Repr

/-- The fault in words. -/
def Fault.message : Fault → Text
  | .notBoolean key => "'".toText ++ key ++ "' must be a boolean".toText
  | .notText key => "'".toText ++ key ++ "' must be a string".toText
  | .notAllowList => "'".toText ++ allowListKey ++ "' must be an object or a list of schemes".toText
  | .notVerdicts => "'".toText ++ allowListKey ++ "' values must be booleans".toText
  | .listAsScheme => "unhashable type: 'list'".toText
  | .objectAsScheme => "unhashable type: 'dict'".toText

/-! ### Reading -/

/-- The boolean member of a name, or the default if there is none. -/
def boolMember (members : List (Text × Json)) (key : Text) (default : Bool) : Except Fault Bool :=
  match Json.member? key members with
  | none => .ok default
  | some (.scalar (.bool b)) => .ok b
  | some _ => .error (.notBoolean key)

/-- The text member of a name, or the default if there is none. -/
def textMember (members : List (Text × Json)) (key default : Text) : Except Fault Text :=
  match Json.member? key members with
  | none => .ok default
  | some (.scalar (.text t)) => .ok t
  | some _ => .error (.notText key)

/-- The items of a list of schemes, none of which may have parts. -/
def scalars : List Json → Except Fault (List Scalar)
  | [] => .ok []
  | .scalar s :: rest => (scalars rest).map (s :: ·)
  | .array _ :: _ => .error .listAsScheme
  | .object _ :: _ => .error .objectAsScheme

/-- The members of an object of verdicts, all of which have to be booleans. -/
def verdicts : List (Text × Json) → Except Fault (List (Text × Bool))
  | [] => .ok []
  | (scheme, .scalar (.bool b)) :: rest => (verdicts rest).map ((scheme, b) :: ·)
  | _ :: _ => .error .notVerdicts

/-- The allow-list, or the default if there is none. -/
def allowListMember (members : List (Text × Json)) (default : AllowList) :
    Except Fault AllowList :=
  match Json.member? allowListKey members with
  | none => .ok default
  | some (.array items) => (scalars items).map .ofScalars
  | some (.object entries) => (verdicts entries).map .ofPairs
  | some (.scalar _) => .error .notAllowList

/-- The names of members that mean nothing, in order of code points. -/
def unknownKeys (members : List (Text × Json)) : List Text :=
  ((members.map Prod.fst).filter (!knownKeys.contains ·)).mergeSort Text.notAfter

/-- What is to be told about the members of an object. -/
def noticesFor (members : List (Text × Json)) : List Notice :=
  if unknownKeys members = [] then [] else [.unknownKeys (unknownKeys members)]

/-- The settings that the members of an object give. -/
def ofMembers (members : List (Text × Json)) : Except Fault Settings := do
  let escapeHtml ← boolMember members escapeHtmlKey ({} : Settings).escapeHtml
  let useClasses ← boolMember members useClassesKey ({} : Settings).useClasses
  let boldStyle ← textMember members boldStyleKey ({} : Settings).boldStyle
  let faintStyle ← textMember members faintStyleKey ({} : Settings).faintStyle
  let italicStyle ← textMember members italicStyleKey ({} : Settings).italicStyle
  let underlineStyle ← textMember members underlineStyleKey ({} : Settings).underlineStyle
  let allowList ← allowListMember members ({} : Settings).allowList
  return { escapeHtml, useClasses, allowList, boldStyle, faintStyle, italicStyle, underlineStyle }

/-- Reads an object with a log that keeps what is told, also if the reading fails. -/
def take (members : List (Text × Json)) : ExceptT Fault (StateM (List Notice)) Settings := do
  let s ← ofExcept (ofMembers members)
  modify (· ++ noticesFor members)
  return s

/-! ### Writing -/

/-- The settings as an object. -/
def toJson (s : Settings) : Json :=
  .object
    [(escapeHtmlKey, .scalar (.bool s.escapeHtml)),
     (useClassesKey, .scalar (.bool s.useClasses)),
     (allowListKey,
      .object (s.allowList.entries.map fun (scheme, allowed) => (scheme, .scalar (.bool allowed)))),
     (boldStyleKey, .scalar (.text s.boldStyle)),
     (faintStyleKey, .scalar (.text s.faintStyle)),
     (italicStyleKey, .scalar (.text s.italicStyle)),
     (underlineStyleKey, .scalar (.text s.underlineStyle))]

/-- The text of a settings file. -/
def write (s : Settings) : Text := s.toJson.print 0 ++ "\n".toText

end TerminalMarkup.Settings
