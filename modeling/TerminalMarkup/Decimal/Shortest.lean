/-
The shortest decimal that reads back as the same number.

Around a binary floating point number lies the interval of the values that round
to it, with its ends exactly when the significand is even.  On the decimal grid of
one digit, then of two, and so on, the value has two neighbours; the first grid
that has one of them in the interval gives the digits, the nearer neighbour if
both are in it.  Seventeen digits always suffice.
-/
import TerminalMarkup.Decimal.Binary64

namespace TerminalMarkup.Decimal

/-- A value `n / d` and the interval of values that round to it, over one denominator. -/
structure Interval where
  value : Nat
  lower : Nat
  upper : Nat
  denominator : Nat
  /-- Whether the ends belong to the interval. -/
  closed : Bool
  deriving DecidableEq, Repr

/-- The interval around `significand * 2 ^ exponent`.  Below the least normal significand the
spacing is half of what it is above, except where the exponent cannot get any less. -/
def Interval.around (significand : Nat) (exponent : Int) : Interval :=
  let unit := Nat.pow 2 exponent.toNat
  let below := if significand = Binary64.leastNormal ∧ Binary64.minExponent < exponent then 1 else 2
  { value := 4 * significand * unit
    lower := (4 * significand - below) * unit
    upper := (4 * significand + 2) * unit
    denominator := 4 * Nat.pow 2 (-exponent).toNat
    closed := significand % 2 == 0 }

/-- Whether `n / d` lies in the interval. -/
def Interval.holds (i : Interval) (n d : Nat) : Bool :=
  if i.closed then i.lower * d ≤ n * i.denominator && n * i.denominator ≤ i.upper * d
  else i.lower * d < n * i.denominator && n * i.denominator < i.upper * d

/-- The exponent `k` for which the value lies from `10 ^ (k - 1)` up to `10 ^ k`. -/
def Interval.magnitude (i : Interval) : Int :=
  if i.denominator ≤ i.value then (Text.ofNat (i.value / i.denominator)).length
  else 1 - (Text.ofNat ((i.denominator - 1) / i.value)).length

/-- `digits * 10 ^ exponent`. -/
structure Scientific where
  digits : Nat
  exponent : Int
  deriving DecidableEq, Repr

/-- The decimal as a quotient of whole numbers. -/
def Scientific.ratio (x : Scientific) : Nat × Nat :=
  (x.digits * Nat.pow 10 x.exponent.toNat, Nat.pow 10 (-x.exponent).toNat)

/-- The neighbour of the value, on the grid of `count` digits, that lies in the interval. -/
def neighbour? (i : Interval) (count : Nat) : Option Scientific :=
  let exponent := i.magnitude - count
  let num := i.value * Nat.pow 10 (-exponent).toNat
  let den := i.denominator * Nat.pow 10 exponent.toNat
  let floor : Scientific := ⟨num / den, exponent⟩
  let ceiling : Scientific := ⟨num / den + 1, exponent⟩
  let low := i.holds floor.ratio.1 floor.ratio.2
  let high := i.holds ceiling.ratio.1 ceiling.ratio.2
  let nearer := if Binary64.roundHalfEven num den = num / den then floor else ceiling
  match low, high with
  | true, true => some nearer
  | true, false => some floor
  | false, true => some ceiling
  | false, false => none

/-- The decimal of fewest digits in the interval, and of those the nearest to the value. -/
def shortest (i : Interval) : Scientific :=
  ((List.range 17).findSome? fun k => neighbour? i (k + 1)).getD ⟨0, 0⟩

/-- The digits without zeros at the end. -/
def significant (digits : Nat) : Text :=
  ((Text.ofNat digits).reverse.dropWhile (· == .scalar '0')).reverse

/-- How a decimal is laid out. -/
structure Layout where
  /-- The least and the greatest place of the point, counted from the first digit, for which no
  exponent is written. -/
  leastPoint : Int
  greatestPoint : Int
  /-- The least number of digits of an exponent. -/
  exponentWidth : Nat
  deriving DecidableEq, Repr

/-- The exponent as it is written, with its sign. -/
def Layout.exponent (layout : Layout) (e : Int) : Text :=
  let digits := Text.ofNat e.natAbs
  'e' :: (if e < 0 then '-' else '+') ::
    (List.replicate (layout.exponentWidth - digits.length) (.scalar '0') ++ digits)

/-- The text of a decimal: with a point and at least one digit after it, or with an exponent. -/
def Layout.text (layout : Layout) (x : Scientific) : Text :=
  let digits := significant x.digits
  let point := x.exponent + (Text.ofNat x.digits).length
  if point < layout.leastPoint ∨ layout.greatestPoint < point then
    let fraction : Text := if digits.length ≤ 1 then [] else '.' :: digits.drop 1
    digits.take 1 ++ fraction ++ layout.exponent (point - 1)
  else if point ≤ 0 then
    '0' :: '.' :: (List.replicate (-point).toNat (.scalar '0') ++ digits)
  else
    let whole := digits.take point.toNat
    let fraction := digits.drop point.toNat
    let places : Text := if fraction = [] then ['0'] else fraction
    whole ++ List.replicate (point.toNat - digits.length) (.scalar '0') ++ .scalar '.' :: places

/-- The shortest text of a finite number without its sign. -/
def Layout.ofFinite (layout : Layout) (significand : Nat) (exponent : Int) : Text :=
  if significand = 0 then ['0', '.', '0']
  else layout.text (shortest (.around significand exponent))

/-- Numbers from a ten-thousandth up to `10 ^ 16` are written without an exponent. -/
def plainLayout : Layout := ⟨-3, 16, 2⟩

end TerminalMarkup.Decimal
