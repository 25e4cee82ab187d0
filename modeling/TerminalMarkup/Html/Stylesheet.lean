/-
The style sheet for the class names that are written when classes are in use.
-/
import TerminalMarkup.Html.Appearance
import TerminalMarkup.Palette

namespace TerminalMarkup.Html

/-- The declaration in a rule, where a space follows the colon of a property. -/
def Declaration.spaced : Declaration → Text
  | .custom css => css
  | .color c => "color: ".toText ++ c.css
  | .backgroundColor c => "background-color: ".toText ++ c.css

/-- A rule: the declaration of one class. -/
structure Rule where
  className : Text
  declaration : Declaration
  deriving DecidableEq, Repr

/-- The rule on a line of its own. -/
def Rule.line (r : Rule) : Text :=
  .scalar '.' :: r.className ++ " \x7b ".toText ++ r.declaration.spaced ++ "; \x7d\n".toText

namespace Stylesheet

/-- The two rules of a colour. -/
def colorRules (c : Color) : List Rule :=
  [⟨c.stem ++ "-fg".toText, .color c⟩, ⟨c.stem ++ "-bg".toText, .backgroundColor c⟩]

/-- The rules for the attributes and the named colours. -/
def rules (settings : Settings) : List Rule :=
  [⟨"bold".toText, .custom settings.boldStyle⟩,
   ⟨"faint".toText, .custom settings.faintStyle⟩,
   ⟨"italic".toText, .custom settings.italicStyle⟩,
   ⟨"underline".toText, .custom settings.underlineStyle⟩] ++
  Palette.named.flatMap colorRules

end Stylesheet

/-- The style sheet under given settings. -/
def stylesheet (settings : Settings) : Text := (Stylesheet.rules settings).flatMap Rule.line

end TerminalMarkup.Html
