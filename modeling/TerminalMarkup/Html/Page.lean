/-
A complete page around a piece of HTML.
-/
import TerminalMarkup.Html.Entity

namespace TerminalMarkup.Html

/-- What a page is made of. -/
structure Page where
  /-- Plain text; it is escaped. -/
  title : Text := []
  /-- A style sheet, or nothing. -/
  css : Text := []
  /-- HTML; it is shown in the type of a terminal. -/
  body : Text
  deriving DecidableEq, Repr

namespace Page

/-- The start of a page, up to its title. -/
def opening : Text :=
  "<!DOCTYPE html>\n<html>\n<head>\n<meta charset=\"utf-8\">\n<title>".toText

/-- The element for the style sheet; there is none for an empty one. -/
def styleElement (css : Text) : Text :=
  if css = [] then [] else "<style>\n".toText ++ css ++ "</style>\n".toText

/-- The page as text. -/
def render (p : Page) : Text :=
  opening ++ escape p.title ++ "</title>\n".toText ++ styleElement p.css
    ++ "</head>\n<body>\n<pre>".toText ++ p.body ++ "</pre>\n</body>\n</html>\n".toText

end Page

end TerminalMarkup.Html
