/-
The style in which text is shown: four attributes and two colours.
-/
import TerminalMarkup.Color

namespace TerminalMarkup

/-- The attributes and colours in force; a colour that is absent is the reader's default. -/
structure Style where
  bold : Bool := false
  faint : Bool := false
  italic : Bool := false
  underline : Bool := false
  foreground : Option Color := none
  background : Option Color := none
  deriving DecidableEq, Repr

namespace Style

/-- Nothing is set. -/
def plain : Style := {}

/-- Whether nothing is set. -/
def isPlain (s : Style) : Bool := s == plain

theorem isPlain_iff {s : Style} : s.isPlain = true ↔ s = plain := by simp [isPlain]

end Style

end TerminalMarkup
