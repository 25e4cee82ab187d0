/-
Lists of schemes.

A list may hold any values without parts.  Values that are equal count once, the
first of them standing for all: a boolean equals the integer 0 or 1, and an integer
equals the floating point number of the same value.  What is left is turned into
text, and texts that are equal count once again.
-/
import TerminalMarkup.Json.Value
import TerminalMarkup.Settings.AllowList

namespace TerminalMarkup

namespace Scalar

/-- The number that a value is, if it is one; booleans count as 0 and 1. -/
def number? : Scalar → Option Dyadic
  | .bool b => some (.ofInt (if b then 1 else 0))
  | .int n => some (.ofInt n)
  | .float x => x.value?
  | _ => none

/-- Whether two values are equal. -/
def sameAs (a b : Scalar) : Bool :=
  match a.number?, b.number? with
  | some x, some y => x.sameAs y
  | none, none => a == b
  | _, _ => false

/-- The text of a value. -/
def schemeText : Scalar → Text
  | .null => "None".toText
  | .bool true => "True".toText
  | .bool false => "False".toText
  | .int n => Text.ofInt n
  | .float x => x.text "inf".toText "nan".toText
  | .text t => t

/-- The values after those that are kept already, each unless an equal one is kept. -/
def distinctOnto (kept : List Scalar) : List Scalar → List Scalar
  | [] => kept
  | s :: rest => distinctOnto (if kept.any (·.sameAs s) then kept else kept ++ [s]) rest

/-- The values without those that equal an earlier one. -/
def distinct (values : List Scalar) : List Scalar := distinctOnto [] values

end Scalar

/-- The list that allows the schemes that values name. -/
def AllowList.ofScalars (values : List Scalar) : AllowList :=
  .ofSchemes ((Scalar.distinct values).map Scalar.schemeText)

end TerminalMarkup
