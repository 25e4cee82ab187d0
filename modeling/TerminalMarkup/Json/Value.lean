/-
JSON values.

Integers are exact and numbers with a fraction or an exponent are binary floating
point numbers; the two kinds are never confused, and neither is a boolean.
-/
import TerminalMarkup.Decimal.Shortest
import TerminalMarkup.Entries

namespace TerminalMarkup

/-- A value without parts. -/
inductive Scalar where
  | null
  | bool (b : Bool)
  | int (n : Int)
  | float (x : Binary64)
  | text (t : Text)
  deriving DecidableEq, Repr

/-- A JSON value; the members of an object stand in order, every name once. -/
inductive Json where
  | scalar (s : Scalar)
  | array (items : List Json)
  | object (members : List (Text × Json))
  deriving Repr

/-- The text of a floating point number, given the words for an infinity and for no number. -/
def Binary64.text (infinity nan : Text) : Binary64 → Text
  | .nan => nan
  | .infinite negative => (if negative then "-".toText else []) ++ infinity
  | .finite negative significand exponent =>
    (if negative then "-".toText else []) ++ Decimal.plainLayout.ofFinite significand exponent

/-- The member of a given name. -/
def Json.member? (name : Text) (members : List (Text × Json)) : Option Json :=
  Entries.get? name members

example : (Binary64.ofDecimal false 1 16).text [] [] = "1e+16".toText := by decide +kernel
example : (Binary64.ofDecimal false 15 (-1)).text [] [] = "1.5".toText := by decide +kernel
example : (Binary64.ofDecimal true 1 (-5)).text [] [] = "-1e-05".toText := by decide +kernel

end TerminalMarkup
