/-
HTML for styled text and for hyperlinks.
-/
import TerminalMarkup.Html.Appearance
import TerminalMarkup.Html.Entity

namespace TerminalMarkup.Html

/-- A text, escaped if the settings say so. -/
def written (settings : Settings) (t : Text) : Text :=
  if settings.escapeHtml then escape t else t

/-- Text in a style: nothing for no text, the bare text in the plain style, and otherwise an
element around it. -/
def renderText (settings : Settings) (s : Style) (chars : Text) : Text :=
  if chars = [] then []
  else if s.isPlain then written settings chars
  else
    "<span".toText ++ (Appearance.ofStyle settings s).attributes ++ ">".toText
      ++ written settings chars ++ "</span>".toText

/-- The scheme of an address: what stands before its first colon. -/
def scheme? (url : Text) : Option Text := (Text.cutAt? ':' url).map Prod.fst

/-- Whether the settings let an address be linked to. -/
def isAllowed (settings : Settings) (url : Text) : Bool :=
  match scheme? url with
  | none => false
  | some scheme => settings.allowList.allows scheme

/-- An anchor, or nothing when the address may not be linked to. -/
def renderHyperlink (settings : Settings) (url label : Text) : Text :=
  if isAllowed settings url then
    "<a href=\"".toText ++ written settings url ++ "\">".toText ++ written settings label
      ++ "</a>".toText
  else []

end TerminalMarkup.Html
