/-
Reading whole numbers from text.

A numeral may stand between blanks, may carry one sign, may separate its digits
with single underscores and may use the decimal digits of any script.  A numeral
of more than `digitLimit` digits is not read at all, however small its value is:
leading zeros count, the sign and the underscores do not.
-/
import TerminalMarkup.Text.Blank
import TerminalMarkup.Text.DecimalDigit

namespace TerminalMarkup.Numeral

open Text

/-- The most digits a numeral may have. -/
def digitLimit : Nat := 4300

/-- The values of a run of digits with single underscores between them; never empty. -/
def digitRun? : Text → Option (List Nat)
  | [] => none
  | c :: rest =>
    match digit? c, rest with
    | none, _ => none
    | some d, [] => some [d]
    | some d, '_' :: more => (digitRun? more).map (d :: ·)
    | some d, next :: more => (digitRun? (next :: more)).map (d :: ·)

/-- The number that a list of decimal digits denotes, first digit first. -/
def value (digits : List Nat) : Nat := digits.foldl (fun n d => 10 * n + d) 0

/-- Whether a minus sign stands in front, and the text after the sign, if there is one. -/
def splitSign : Text → Bool × Text
  | '-' :: rest => (true, rest)
  | '+' :: rest => (false, rest)
  | t => (false, t)

/-- The integer a text denotes, or nothing when it is no numeral or has too many digits. -/
def readInt? (t : Text) : Option Int :=
  let (negative, body) := splitSign (trim t)
  match digitRun? body with
  | none => none
  | some digits =>
    if digits.length ≤ digitLimit then
      some (if negative then -(value digits : Int) else value digits)
    else none

/-- Signed words of 64 bits hold the integers from the negation of this up to it. -/
def wordBound : Nat := Nat.pow 2 63

/-- Whether an integer fits a signed word. -/
def fitsWord (n : Int) : Bool := -(wordBound : Int) ≤ n && n < wordBound

/-! ### Decimal fractions

Only their form matters here: a command-line value has to be one, but nothing
computes with it.
-/

/-- A digit or an underscore. -/
def isDigitOrJoint (c : CodePoint) : Bool := (digit? c).isSome || c == '_'

/-- Nothing, or a run of digits. -/
def isOptionalRun (t : Text) : Bool := t.isEmpty || (digitRun? t).isSome

/-- An `e`, perhaps a sign and a run of digits; or nothing. -/
def isExponent : Text → Bool
  | [] => true
  | c :: rest => (c == 'e' || c == 'E') && (digitRun? (splitSign rest).2).isSome

/-- Digits with perhaps a point among them, and perhaps an exponent after them. -/
def isDecimal (t : Text) : Bool :=
  let whole := t.takeWhile isDigitOrJoint
  match t.dropWhile isDigitOrJoint with
  | '.' :: rest =>
    let fraction := rest.takeWhile isDigitOrJoint
    isOptionalRun whole && isOptionalRun fraction && !(whole.isEmpty && fraction.isEmpty)
      && isExponent (rest.dropWhile isDigitOrJoint)
  | rest => (digitRun? whole).isSome && isExponent rest

/-- A decimal fraction, an infinity or a not-a-number, perhaps signed and between blanks. -/
def isReal (t : Text) : Bool :=
  let body := (splitSign (trim t)).2
  ["inf".toText, "infinity".toText, "nan".toText].contains (body.map CodePoint.toLower)
    || isDecimal body

example : readInt? " -1_0 ".toText = some (-10) := by decide
example : readInt? "३".toText = some 3 := by decide
example : readInt? "1__0".toText = none ∧ readInt? "+ 1".toText = none := by decide
example : isReal "1_0.e-3".toText ∧ isReal "-Inf".toText ∧ ¬ isReal ".".toText := by decide

end TerminalMarkup.Numeral
