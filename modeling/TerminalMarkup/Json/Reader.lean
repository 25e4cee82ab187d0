/-
Reading JSON.

The reader follows the grammar of JSON, and takes `NaN`, `Infinity` and
`-Infinity` as numbers besides.  It stops at the first fault and says what was
wrong and where.  The functions look at the text that is left and never at a
position; a fault names the text that was left when it was found, and its position
is worked out once, at the end.  There is no limit to how deeply values may be nested.
-/
import TerminalMarkup.Json.Value
import TerminalMarkup.Text.Numeral

namespace TerminalMarkup.Json

open Text

/-! ### Faults -/

/-- What is wrong with a text that is not JSON. -/
inductive Cause where
  | expectingValue
  | expectingName
  | expectingColon
  | expectingComma
  | extraData
  | unterminatedString
  | controlCharacter
  | badEscape
  | badUnicodeEscape
  | byteOrderMark
  /-- The text is JSON, but an integer in it has too many digits to be read. -/
  | tooManyDigits (count : Nat)
  deriving DecidableEq, Repr

/-- A cause, and how many characters were left where it was found. -/
structure Stop where
  cause : Cause
  left : Nat
  deriving DecidableEq, Repr

/-- Stops in front of the text that is left. -/
def stop {α : Type} (cause : Cause) (left : Text) : Except Stop α := .error ⟨cause, left.length⟩

/-- A cause and the position it was found at. -/
structure Fault where
  cause : Cause
  position : Nat
  deriving DecidableEq, Repr

/-- The cause in words. -/
def Cause.message : Cause → Text
  | .expectingValue => "Expecting value".toText
  | .expectingName => "Expecting property name enclosed in double quotes".toText
  | .expectingColon => "Expecting ':' delimiter".toText
  | .expectingComma => "Expecting ',' delimiter".toText
  | .extraData => "Extra data".toText
  | .unterminatedString => "Unterminated string starting at".toText
  | .controlCharacter => "Invalid control character at".toText
  | .badEscape => "Invalid \\escape".toText
  | .badUnicodeEscape => "Invalid \\uXXXX escape".toText
  | .byteOrderMark => "Unexpected UTF-8 BOM (decode using utf-8-sig)".toText
  | .tooManyDigits count =>
    "Exceeds the limit (".toText ++ ofNat Numeral.digitLimit
      ++ " digits) for integer string conversion: value has ".toText ++ ofNat count
      ++ " digits; use sys.set_int_max_str_digits() to increase the limit".toText

/-- The fault in words, with its line and column in the text it was found in. -/
def Fault.message (f : Fault) (t : Text) : Text :=
  let before := t.take f.position
  let line := before.count (.scalar '\n') + 1
  let column := (before.reverse.takeWhile (· != .scalar '\n')).length + 1
  f.cause.message ++ ": line ".toText ++ ofNat line ++ " column ".toText ++ ofNat column
    ++ " (char ".toText ++ ofNat f.position ++ ")".toText

/-! ### White space and words -/

/-- The white space of JSON. -/
def isSpace (c : CodePoint) : Bool := c == ' ' || c == '\t' || c == '\n' || c == '\r'

/-- The text from its first character that is not white space. -/
def skipSpace (t : Text) : Text := t.dropWhile isSpace

/-- The words that stand for a value. -/
def words : List (Text × Scalar) :=
  [("null".toText, .null),
   ("true".toText, .bool true),
   ("false".toText, .bool false),
   ("NaN".toText, .float .nan),
   ("Infinity".toText, .float (.infinite false)),
   ("-Infinity".toText, .float (.infinite true))]

/-- The word at the front of a text, and the text after it. -/
def readWord? (t : Text) : Option (Scalar × Text) :=
  words.findSome? fun (word, s) => (after? word t).map (s, ·)

/-! ### Strings -/

/-- The value of a hexadecimal digit. -/
def hexDigit? (c : CodePoint) : Option Nat :=
  if '0' ≤ c ∧ c ≤ '9' then some (c.toNat - '0'.toNat)
  else if 'a' ≤ c ∧ c ≤ 'f' then some (c.toNat - 'a'.toNat + 10)
  else if 'A' ≤ c ∧ c ≤ 'F' then some (c.toNat - 'A'.toNat + 10)
  else none

/-- The number that four hexadecimal digits denote. -/
def hexUnit? (a b c d : CodePoint) : Option Nat :=
  match hexDigit? a, hexDigit? b, hexDigit? c, hexDigit? d with
  | some a, some b, some c, some d => some (((16 * a + b) * 16 + c) * 16 + d)
  | _, _, _, _ => none

/-- The first half of a pair that stands for one character. -/
def isHighSurrogate (n : Nat) : Bool := 0xd800 ≤ n && n ≤ 0xdbff

/-- The second half of a pair that stands for one character. -/
def isLowSurrogate (n : Nat) : Bool := 0xdc00 ≤ n && n ≤ 0xdfff

/-- The code point of a pair of code units. -/
def pairChar (high low : Nat) : CodePoint :=
  .ofNat (0x10000 + (high - 0xd800) * 0x400 + (low - 0xdc00))

/-- The code point after the first half of a pair: that of the pair, if the second half follows, and
otherwise that of the half alone, which is a surrogate. -/
def readPair (high : Nat) (rest : Text) : Except Stop (CodePoint × Text) :=
  match rest with
  | '\\' :: 'u' :: a :: b :: c :: d :: next :: more =>
    match hexUnit? a b c d with
    | none => stop .badUnicodeEscape ('u' :: a :: b :: c :: d :: next :: more)
    | some low =>
      if isLowSurrogate low then .ok (pairChar high low, next :: more)
      else .ok (.ofNat high, rest)
  | _ => .ok (.ofNat high, rest)

/-- The character of an escape, from its four digits on.  A character has to follow them, as the
string is not closed yet. -/
def readUnicode (rest : Text) : Except Stop (CodePoint × Text) :=
  match rest with
  | a :: b :: c :: d :: next :: more =>
    match hexUnit? a b c d with
    | none => stop .badUnicodeEscape ('u' :: rest)
    | some n =>
      if isHighSurrogate n then readPair n (next :: more) else .ok (.ofNat n, next :: more)
  | _ => stop .badUnicodeEscape ('u' :: rest)

/-- The character that a letter after a backslash stands for. -/
def escapeLetter? : CodePoint → Option CodePoint
  | '\x22' => some '\x22'
  | '\\' => some '\\'
  | '/' => some '/'
  | 'b' => some '\x08'
  | 'f' => some '\x0c'
  | 'n' => some '\n'
  | 'r' => some '\r'
  | 't' => some '\t'
  | _ => none

/-- The character of an escape, from the character after the backslash on; `opening` is the text
from the quotation mark on that opened the string. -/
def readEscape (opening t : Text) : Except Stop (CodePoint × Text) :=
  match t with
  | [] => stop .unterminatedString opening
  | c :: rest =>
    if c = 'u' then readUnicode rest
    else match escapeLetter? c with
      | some d => .ok (d, rest)
      | none => stop .badEscape ('\\' :: t)

theorem length_readPair_le {high : Nat} {rest rest' : Text} {c : CodePoint}
    (h : readPair high rest = .ok (c, rest')) : rest'.length ≤ rest.length := by
  unfold readPair at h
  split at h
  · split at h
    · simp [stop] at h
    · split at h <;> simp only [Except.ok.injEq, Prod.mk.injEq] at h
      · rw [← h.2]
        simp only [List.length_cons]
        omega
      · exact Nat.le_of_eq (congrArg List.length h.2.symm)
  · simp only [Except.ok.injEq, Prod.mk.injEq] at h
    exact Nat.le_of_eq (congrArg List.length h.2.symm)

theorem length_readUnicode_le {rest rest' : Text} {c : CodePoint}
    (h : readUnicode rest = .ok (c, rest')) : rest'.length ≤ rest.length := by
  unfold readUnicode at h
  repeat' split at h
  · simp [stop] at h
  · have := length_readPair_le h
    simp only [List.length_cons] at this ⊢
    omega
  · simp only [Except.ok.injEq, Prod.mk.injEq] at h
    rw [← h.2]
    simp only [List.length_cons]
    omega
  · simp [stop] at h

theorem length_readEscape_le {opening t rest : Text} {c : CodePoint}
    (h : readEscape opening t = .ok (c, rest)) : rest.length ≤ t.length := by
  unfold readEscape at h
  split at h
  · simp [stop] at h
  split at h
  · exact Nat.le_succ_of_le (length_readUnicode_le h)
  split at h
  · simp only [Except.ok.injEq, Prod.mk.injEq] at h
    rw [← h.2]
    exact Nat.le_succ _
  · simp [stop] at h

/-- The characters up to the closing quotation mark, after those that are done, which are kept in
reverse; and the text after the mark. -/
def readChars (opening done : Text) : Text → Except Stop (Text × Text)
  | [] => stop .unterminatedString opening
  | c :: rest =>
    if c = '\x22' then .ok (done.reverse, rest)
    else if c = '\\' then
      match _h : readEscape opening rest with
      | .error e => .error e
      | .ok (d, rest') => readChars opening (d :: done) rest'
    else if c.toNat ≤ 0x1f then stop .controlCharacter (c :: rest)
    else readChars opening (c :: done) rest
termination_by t => t.length
decreasing_by
  · exact Nat.lt_succ_of_le (length_readEscape_le _h)
  · exact Nat.lt_succ_self _

/-- The string whose opening quotation mark has just been read. -/
def readString (rest : Text) : Except Stop (Text × Text) := readChars ('\x22' :: rest) [] rest

/-! ### Numbers -/

/-- The digits before a point: a zero alone, or digits that do not begin with zero. -/
def wholeDigits (t : Text) : Text :=
  match t with
  | '0' :: _ => ['0']
  | t => t.takeWhile isAsciiDigit

/-- The digits after a point, and the text after them; a point alone is not taken. -/
def readFraction (t : Text) : Text × Text :=
  match t with
  | '.' :: rest =>
    let digits := rest.takeWhile isAsciiDigit
    if digits = [] then ([], t) else (digits, rest.drop digits.length)
  | t => ([], t)

/-- The exponent, and the text after it; an exponent without digits is not taken. -/
def readExponent (t : Text) : Option Int × Text :=
  match t with
  | c :: rest =>
    if c = 'e' ∨ c = 'E' then
      let (negative, body) := Numeral.splitSign rest
      let digits := body.takeWhile isAsciiDigit
      if digits = [] then (none, t)
      else
        let n : Int := Numeral.value (digits.map fun d => d.toNat - '0'.toNat)
        (some (if negative then -n else n), body.drop digits.length)
    else (none, t)
  | [] => (none, [])

/-- The number that ASCII digits denote. -/
def digitsValue (digits : Text) : Nat := Numeral.value (digits.map fun d => d.toNat - '0'.toNat)

/-- A number. -/
def readNumber (t : Text) : Except Stop (Scalar × Text) :=
  let (negative, body) := match t with
    | '-' :: rest => (true, rest)
    | t => (false, t)
  let whole := wholeDigits body
  if whole = [] then stop .expectingValue t
  else
    let (fraction, rest) := readFraction (body.drop whole.length)
    let (exponent, rest) := readExponent rest
    if fraction = [] ∧ exponent = none then
      if Numeral.digitLimit < whole.length then stop (.tooManyDigits whole.length) t
      else
        let n : Int := digitsValue whole
        .ok (.int (if negative then -n else n), rest)
    else
      let digits := digitsValue (whole ++ fraction)
      .ok (.float (.ofDecimal negative digits (exponent.getD 0 - fraction.length)), rest)

/-- A value without parts. -/
def readScalar (t : Text) : Except Stop (Scalar × Text) :=
  match t with
  | '\x22' :: rest =>
    match readString rest with
    | .error e => .error e
    | .ok (s, rest) => .ok (.text s, rest)
  | t =>
    match readWord? t with
    | some r => .ok r
    | none => readNumber t

/-! ### Values

Every call takes one unit of fuel; a value of `n` characters takes fewer than
`2 * n + 2`, so that much is given and never runs out.
-/

/-- The name of a member and the colon after it. -/
def readName (t : Text) : Except Stop (Text × Text) :=
  match t with
  | '\x22' :: rest =>
    match readString rest with
    | .error e => .error e
    | .ok (name, rest) =>
      match skipSpace rest with
      | ':' :: rest => .ok (name, rest)
      | rest => stop .expectingColon rest
  | t => stop .expectingName t

mutual

/-- The value at the front of a text, and the text after it. -/
def readValue (fuel : Nat) (t : Text) : Except Stop (Json × Text) :=
  match fuel with
  | 0 => stop .expectingValue t
  | fuel + 1 =>
    match t with
    | '[' :: rest =>
      match skipSpace rest with
      | ']' :: rest => .ok (.array [], rest)
      | rest =>
        match readItems fuel rest with
        | .error e => .error e
        | .ok (items, rest) => .ok (.array items, rest)
    | '\x7b' :: rest =>
      match skipSpace rest with
      | '\x7d' :: rest => .ok (.object [], rest)
      | rest =>
        match readMembers fuel rest with
        | .error e => .error e
        | .ok (members, rest) => .ok (.object (Entries.ofPairs members), rest)
    | t =>
      match readScalar t with
      | .error e => .error e
      | .ok (s, rest) => .ok (.scalar s, rest)

/-- The items of an array that has at least one, and the text after its closing bracket. -/
def readItems (fuel : Nat) (t : Text) : Except Stop (List Json × Text) :=
  match fuel with
  | 0 => stop .expectingValue t
  | fuel + 1 =>
    match readValue fuel t with
    | .error e => .error e
    | .ok (item, rest) =>
      match skipSpace rest with
      | ']' :: rest => .ok ([item], rest)
      | ',' :: rest =>
        match readItems fuel (skipSpace rest) with
        | .error e => .error e
        | .ok (items, rest) => .ok (item :: items, rest)
      | rest => stop .expectingComma rest

/-- The members of an object that has at least one, and the text after its closing brace. -/
def readMembers (fuel : Nat) (t : Text) : Except Stop (List (Text × Json) × Text) :=
  match fuel with
  | 0 => stop .expectingValue t
  | fuel + 1 =>
    match readName t with
    | .error e => .error e
    | .ok (name, rest) =>
      match readValue fuel (skipSpace rest) with
      | .error e => .error e
      | .ok (v, rest) =>
        match skipSpace rest with
        | '\x7d' :: rest => .ok ([(name, v)], rest)
        | ',' :: rest =>
          match readMembers fuel (skipSpace rest) with
          | .error e => .error e
          | .ok (members, rest) => .ok ((name, v) :: members, rest)
        | rest => stop .expectingComma rest

end

/-- The value that is the whole of a text. -/
def readWhole (t : Text) : Except Stop Json :=
  if t.head? = some (.scalar '\ufeff') then stop .byteOrderMark t
  else
    match readValue (2 * t.length + 2) (skipSpace t) with
    | .error e => .error e
    | .ok (v, rest) =>
      match skipSpace rest with
      | [] => .ok v
      | rest => stop .extraData rest

/-- The value that a text denotes, or the first fault in it. -/
def read (t : Text) : Except Fault Json :=
  match readWhole t with
  | .ok v => .ok v
  | .error e => .error ⟨e.cause, t.length - e.left⟩

end TerminalMarkup.Json
