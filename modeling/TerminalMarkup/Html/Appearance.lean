/-
How a style is expressed: by declarations, by class names, or by both.

Without classes everything is declared where it is used.  With classes the four
attributes and the named colours are classes, for which the style sheet has the
declarations, and only the other colours are still declared in place.
-/
import TerminalMarkup.Settings.Basic
import TerminalMarkup.Style

namespace TerminalMarkup.Html

/-- A declaration of CSS. -/
inductive Declaration where
  /-- A declaration as the settings give it. -/
  | custom (css : Text)
  | color (c : Color)
  | backgroundColor (c : Color)
  deriving DecidableEq, Repr

/-- The declaration in a style attribute. -/
def Declaration.inline : Declaration → Text
  | .custom css => css
  | .color c => "color:".toText ++ c.css
  | .backgroundColor c => "background-color:".toText ++ c.css

/-- What a start tag says about the style of its element. -/
structure Appearance where
  declarations : List Declaration
  classes : List Text
  deriving DecidableEq, Repr

namespace Appearance

/-- The declarations of a style when everything is declared in place. -/
def declared (settings : Settings) (s : Style) : List Declaration :=
  (if s.bold then [.custom settings.boldStyle] else []) ++
  (if s.faint then [.custom settings.faintStyle] else []) ++
  (if s.italic then [.custom settings.italicStyle] else []) ++
  (if s.underline then [.custom settings.underlineStyle] else []) ++
  (s.foreground.map .color).toList ++
  (s.background.map .backgroundColor).toList

/-- The class of a foreground colour, if it is named. -/
def foregroundClass? (c : Color) : Option Text := c.stem?.map (· ++ "-fg".toText)

/-- The class of a background colour, if it is named. -/
def backgroundClass? (c : Color) : Option Text := c.stem?.map (· ++ "-bg".toText)

/-- The classes of a style. -/
def styleClasses (s : Style) : List Text :=
  (if s.bold then ["bold".toText] else []) ++
  (if s.faint then ["faint".toText] else []) ++
  (if s.italic then ["italic".toText] else []) ++
  (if s.underline then ["underline".toText] else []) ++
  (s.foreground.bind foregroundClass?).toList ++
  (s.background.bind backgroundClass?).toList

/-- The declarations of the colours that have no class. -/
def unclassed (s : Style) : List Declaration :=
  ((s.foreground.filter (·.stem?.isNone)).map .color).toList ++
  ((s.background.filter (·.stem?.isNone)).map .backgroundColor).toList

/-- The expression of a style under given settings. -/
def ofStyle (settings : Settings) (s : Style) : Appearance :=
  if settings.useClasses then ⟨unclassed s, styleClasses s⟩
  else ⟨declared settings s, []⟩

/-- An attribute, or nothing when its value would be empty for want of items. -/
def listAttribute (name : Text) (separator : Text) (items : List Text) : Text :=
  if items = [] then []
  else .scalar ' ' :: name ++ "=\"".toText ++ separator.intercalate items ++ "\"".toText

/-- The attributes of the start tag. -/
def attributes (a : Appearance) : Text :=
  listAttribute "style".toText ";".toText (a.declarations.map Declaration.inline) ++
  listAttribute "class".toText " ".toText a.classes

end Appearance

end TerminalMarkup.Html
