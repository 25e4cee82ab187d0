/-
The settings of a conversion.
-/
import TerminalMarkup.Settings.AllowList

namespace TerminalMarkup

/-- What can be chosen about the HTML that is written. -/
structure Settings where
  /-- Escape the characters that mean something in HTML. -/
  escapeHtml : Bool := true
  /-- Write class names for attributes and named colours instead of style declarations. -/
  useClasses : Bool := false
  /-- The schemes that hyperlinks may have. -/
  allowList : AllowList := .web
  /-- The declarations for the four attributes. -/
  boldStyle : Text := "font-weight:bold".toText
  faintStyle : Text := "opacity:0.7".toText
  italicStyle : Text := "font-style:italic".toText
  underlineStyle : Text := "text-decoration:underline".toText
  deriving DecidableEq, Repr

namespace Settings

/-- A change of one setting. -/
inductive Edit where
  | escapeHtml (on : Bool)
  | useClasses (on : Bool)
  | allowList (list : AllowList)
  | boldStyle (css : Text)
  | faintStyle (css : Text)
  | italicStyle (css : Text)
  | underlineStyle (css : Text)
  /-- The verdict on one scheme. -/
  | scheme (name : Text) (allowed : Bool)
  deriving DecidableEq, Repr

/-- The settings after a change. -/
def edit (s : Settings) : Edit → Settings
  | .escapeHtml on => { s with escapeHtml := on }
  | .useClasses on => { s with useClasses := on }
  | .allowList list => { s with allowList := list }
  | .boldStyle css => { s with boldStyle := css }
  | .faintStyle css => { s with faintStyle := css }
  | .italicStyle css => { s with italicStyle := css }
  | .underlineStyle css => { s with underlineStyle := css }
  | .scheme name allowed => { s with allowList := s.allowList.put name allowed }

/-- What the four attributes are declared by. -/
def styleTexts (s : Settings) : List Text :=
  [s.boldStyle, s.faintStyle, s.italicStyle, s.underlineStyle]

/-- Whether two settings say the same; the order of the allow-list says nothing. -/
def sameAs (a b : Settings) : Bool :=
  decide ({ a with allowList := b.allowList } = b) && a.allowList.sameAs b.allowList

/-- Whether the settings say what the default settings say. -/
def isDefault (s : Settings) : Bool := s.sameAs {}

end Settings

end TerminalMarkup
