/-
Colours.

A colour is three channels together with where it came from, and perhaps a name.
Only the named colours are meant to have names: a style sheet has a class for each of
them, and every other colour has to be spelled out where it is used.  The two fields
can contradict one another, and `WellFormed` says that they do not.
-/
import TerminalMarkup.Text.Basic

namespace TerminalMarkup

/-- Where a colour came from. -/
inductive Color.Category where
  /-- It is one of the sixteen named palette entries. -/
  | named
  /-- It is another palette entry. -/
  | indexed
  /-- It is given by its channels. -/
  | direct
  deriving DecidableEq, Repr

/-- An RGB colour. -/
structure Color where
  red : Nat
  green : Nat
  blue : Nat
  category : Color.Category
  name : Option Text
  deriving DecidableEq, Repr

namespace Color

/-- Whether the colour is one of those that have classes. -/
def isNamed (c : Color) : Bool := decide (c.category = .named)

/-- The colour has a name exactly when it is one of the named ones. -/
def WellFormed (c : Color) : Prop := c.isNamed = c.name.isSome

instance (c : Color) : Decidable c.WellFormed := inferInstanceAs (Decidable (_ = _))

/-- The stem of the class names for the colour. -/
def stem (c : Color) : Text := c.name.getD "None".toText

/-- The stem of the colour's class names, if it is one of the named colours. -/
def stem? (c : Color) : Option Text := if c.isNamed then some c.stem else none

theorem eq_stem_of_mem_stem? {c : Color} {stem : Text} (h : stem ∈ c.stem?) : stem = c.stem := by
  unfold stem? at h
  split at h
  · exact (Option.some.inj h).symm
  · cases h

/-- The colour as CSS writes it. -/
def css (c : Color) : Text :=
  "rgb(".toText ++ Text.ofNat c.red ++ ",".toText ++ Text.ofNat c.green ++ ",".toText
    ++ Text.ofNat c.blue ++ ")".toText

end Color

end TerminalMarkup
