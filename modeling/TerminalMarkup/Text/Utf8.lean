/-
UTF-8.

A sequence of bytes is cut into segments: a well-formed character, or a malformed
run, which is a first byte together with the continuation bytes that could still
have belonged to a character.  Strict decoding stops at the first malformed run
and says where it is and what is wrong with it; lossy decoding puts one
replacement character in the place of each.
-/
import TerminalMarkup.Text.Basic

namespace TerminalMarkup.Utf8

/-- What is wrong with a malformed run. -/
inductive Fault where
  /-- The byte starts no character. -/
  | badStart
  /-- A continuation byte was needed and another byte stands there. -/
  | badContinuation
  /-- A continuation byte was needed and the bytes end. -/
  | truncated
  deriving DecidableEq, Repr

/-- A well-formed character, or a run of bytes that is none. -/
inductive Segment where
  | char (c : Char)
  | malformed (fault : Fault) (bytes : List UInt8)
  deriving DecidableEq, Repr

/-- How many continuation bytes a first byte asks for, the bounds of the first of them, and the
bits the first byte itself gives. -/
def lead? (b : Nat) : Option (Nat × Nat × Nat × Nat) :=
  if b < 0x80 then some (0, 0, 0, b)
  else if b < 0xc2 then none
  else if b < 0xe0 then some (1, 0x80, 0xbf, b - 0xc0)
  else if b < 0xf0 then
    some (2, if b = 0xe0 then 0xa0 else 0x80, if b = 0xed then 0x9f else 0xbf, b - 0xe0)
  else if b < 0xf5 then
    some (3, if b = 0xf0 then 0x90 else 0x80, if b = 0xf4 then 0x8f else 0xbf, b - 0xf0)
  else none

/-- The segment that `needed` more continuation bytes complete, and the bytes after it. -/
def complete (needed low high bits : Nat) (seen bytes : List UInt8) : Segment × List UInt8 :=
  match needed, bytes with
  | 0, bytes => (.char (Char.ofNat bits), bytes)
  | _ + 1, [] => (.malformed .truncated seen.reverse, [])
  | n + 1, b :: rest =>
    if low ≤ b.toNat ∧ b.toNat ≤ high then
      complete n 0x80 0xbf (64 * bits + (b.toNat - 0x80)) (b :: seen) rest
    else (.malformed .badContinuation seen.reverse, b :: rest)

/-- The first segment of a non-empty sequence, and the bytes after it. -/
def next (b : UInt8) (rest : List UInt8) : Segment × List UInt8 :=
  match lead? b.toNat with
  | none => (.malformed .badStart [b], rest)
  | some (needed, low, high, bits) => complete needed low high bits [b] rest

theorem length_complete_le (needed low high bits : Nat) (seen bytes : List UInt8) :
    (complete needed low high bits seen bytes).2.length ≤ bytes.length := by
  fun_induction complete needed low high bits seen bytes with
  | case1 => exact Nat.le_refl _
  | case2 => exact Nat.le_refl _
  | case3 _ _ _ _ _ _ _ _ ih => exact Nat.le_succ_of_le ih
  | case4 => exact Nat.le_refl _

theorem length_next_le (b : UInt8) (rest : List UInt8) : (next b rest).2.length ≤ rest.length := by
  unfold next
  split
  · exact Nat.le_refl _
  · exact length_complete_le ..

/-- `segments` after the segments that are done, which are kept in reverse. -/
def segmentsOnto (done : List Segment) : List UInt8 → List Segment
  | [] => done.reverse
  | b :: rest => segmentsOnto ((next b rest).1 :: done) (next b rest).2
termination_by bytes => bytes.length
decreasing_by exact Nat.lt_succ_of_le (length_next_le b rest)

/-- The segments of a sequence of bytes. -/
def segments (bytes : List UInt8) : List Segment := segmentsOnto [] bytes

/-- The character a segment stands for in lossy decoding. -/
def Segment.toChar : Segment → Char
  | .char c => c
  | .malformed _ _ => '\ufffd'

/-- The text of the bytes, with a replacement character for each malformed run. -/
def decodeLossy (bytes : List UInt8) : Text := .ofChars ((segments bytes).map Segment.toChar)

/-- The first malformed run: the position of its first byte, what is wrong, and its bytes. -/
structure Error where
  position : Nat
  fault : Fault
  bytes : List UInt8
  deriving DecidableEq, Repr

/-- The first malformed run among segments that start at `position`. -/
def firstError? (position : Nat) : List Segment → Option Error
  | [] => none
  | .char c :: rest => firstError? (position + c.utf8Size) rest
  | .malformed fault bytes :: _ => some ⟨position, fault, bytes⟩

/-- The text of the bytes, if they are well formed. -/
def decode (bytes : List UInt8) : Except Error Text :=
  let parts := segments bytes
  match firstError? 0 parts with
  | some e => .error e
  | none => .ok (.ofChars (parts.map Segment.toChar))

/-- The bytes of characters. -/
def encode (chars : List Char) : List UInt8 := chars.flatMap String.utf8EncodeChar

/-- The bytes of a text, if it has any: a surrogate has none. -/
def encode? (t : Text) : Option (List UInt8) := t.chars?.map encode

/-- The reason, in words. -/
def Fault.message : Fault → Text
  | .badStart => "invalid start byte".toText
  | .badContinuation => "invalid continuation byte".toText
  | .truncated => "unexpected end of data".toText

/-- The message for a sequence that cannot be decoded; positions count bytes. -/
def Error.message (e : Error) : Text :=
  let place := match e.bytes with
    | [b] =>
      "byte 0x".toText ++ Text.hex 2 b.toNat ++ " in position ".toText ++ Text.ofNat e.position
    | _ => "bytes in position ".toText ++ Text.ofNat e.position ++ "-".toText
        ++ Text.ofNat (e.position + e.bytes.length - 1)
  "'utf-8' codec can't decode ".toText ++ place ++ ": ".toText ++ e.fault.message

example : decodeLossy [0xe0, 0x80, 0x80, 0x41] = "\ufffd\ufffd\ufffdA".toText := by decide +kernel
example : decodeLossy [0xf0, 0x9f, 0x98, 0x41] = "\ufffdA".toText := by decide +kernel
example : firstError? 0 (segments [0x22, 0xe2, 0x82]) = some ⟨1, .truncated, [0xe2, 0x82]⟩ := by
  decide +kernel

end TerminalMarkup.Utf8
