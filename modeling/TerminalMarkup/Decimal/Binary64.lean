/-
Binary floating point numbers of 53 significant bits, as exact values.

A finite number is a sign, a whole significand and a power of two, so it can be
compared with any integer and rounded from any decimal without an error.  The
zero with a minus sign is kept apart from the other one, as the formats do that
write such numbers, but the two are equal as values.
-/
import TerminalMarkup.Text.Basic

namespace TerminalMarkup

/-- A binary floating point number. -/
inductive Binary64 where
  /-- `significand * 2 ^ exponent`, negated or not. -/
  | finite (negative : Bool) (significand : Nat) (exponent : Int)
  | infinite (negative : Bool)
  | nan
  deriving DecidableEq, Repr

/-- The exact value `numerator / 2 ^ places`. -/
structure Dyadic where
  numerator : Int
  places : Nat
  deriving DecidableEq, Repr

namespace Dyadic

/-- A whole number as a value. -/
def ofInt (n : Int) : Dyadic := ⟨n, 0⟩

/-- Whether two values are equal. -/
def sameAs (a b : Dyadic) : Bool :=
  a.numerator * Nat.pow 2 b.places == b.numerator * Nat.pow 2 a.places

end Dyadic

namespace Binary64

/-- The least exponent. -/
def minExponent : Int := -1074

/-- The greatest exponent. -/
def maxExponent : Int := 971

/-- Significands of normal numbers have 53 bits: from this on, and below its double. -/
def leastNormal : Nat := Nat.pow 2 52

/-- The exact value of a finite number. -/
def value? : Binary64 → Option Dyadic
  | .finite negative significand exponent =>
    let n : Int := if negative then -significand else significand
    some ⟨n * Nat.pow 2 exponent.toNat, (-exponent).toNat⟩
  | _ => none

/-- The quotient rounded to the nearest whole number, a half to the even one. -/
def roundHalfEven (n d : Nat) : Nat :=
  let q := n / d
  let twice := 2 * (n % d)
  if twice < d ∨ (twice = d ∧ q % 2 = 0) then q else q + 1

/-- `n / (d * 2 ^ e)` as a quotient of whole numbers. -/
def scaled (n d : Nat) (e : Int) : Nat × Nat := (n * Nat.pow 2 (-e).toNat, d * Nat.pow 2 e.toNat)

/-- The number nearest to `n / d`, where `n` and `d` are positive. -/
def ofRatio (negative : Bool) (n d : Nat) : Binary64 :=
  let guess := max minExponent ((n.log2 : Int) - d.log2 - 52)
  let e :=
    let (a, b) := scaled n d guess
    if a < leastNormal * b ∧ minExponent < guess then guess - 1 else guess
  let (a, b) := scaled n d e
  let m := roundHalfEven a b
  let (m, e) := if m = 2 * leastNormal then (leastNormal, e + 1) else (m, e)
  if maxExponent < e then .infinite negative else .finite negative m e

/-- The zero of either sign. -/
def signedZero (negative : Bool) : Binary64 := .finite negative 0 minExponent

/-- Decimals of a higher magnitude than this round to an infinity. -/
def maxMagnitude : Int := 310

/-- Decimals of a lower magnitude than this round to zero. -/
def minMagnitude : Int := -330

/-- The number nearest to `digits * 10 ^ exponent`. -/
def ofDecimal (negative : Bool) (digits : Nat) (exponent : Int) : Binary64 :=
  let magnitude := exponent + (Text.ofNat digits).length
  if digits = 0 then signedZero negative
  else if maxMagnitude < magnitude then .infinite negative
  else if magnitude < minMagnitude then signedZero negative
  else ofRatio negative (digits * Nat.pow 10 exponent.toNat)
    (Nat.pow 10 (-exponent).toNat)

example : ofDecimal false 1 0 = .finite false leastNormal (-52) := by decide +kernel
example : ofDecimal false 5 (-324) = .finite false 1 (-1074) := by decide +kernel
example : ofDecimal true 2 308 = .infinite true := by decide +kernel

end Binary64

end TerminalMarkup
