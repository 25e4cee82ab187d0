/-
Writing JSON.

The text is ASCII: every other code point is escaped, as a pair of code units if it
lies beyond the first 65536.  Items and members stand on lines of their own, two
spaces further in than what they belong to; what has no items or members is
written as a pair of brackets.
-/
import TerminalMarkup.Json.Value

namespace TerminalMarkup.Json

open Text

/-- A code unit as an escape. -/
def unitEscape (n : Nat) : Text := '\\' :: 'u' :: hex 4 n

/-- One character as it is written in a string. -/
def printChar (c : CodePoint) : Text :=
  match c with
  | '\x22' => ['\\', '\x22']
  | '\\' => ['\\', '\\']
  | '\n' => ['\\', 'n']
  | '\r' => ['\\', 'r']
  | '\t' => ['\\', 't']
  | '\x08' => ['\\', 'b']
  | '\x0c' => ['\\', 'f']
  | c =>
    if 0x20 ≤ c.toNat ∧ c.toNat ≤ 0x7e then [c]
    else if c.toNat < 0x10000 then unitEscape c.toNat
    else
      let n := c.toNat - 0x10000
      unitEscape (0xd800 + n / 0x400) ++ unitEscape (0xdc00 + n % 0x400)

/-- A string. -/
def printText (t : Text) : Text := .scalar '\x22' :: t.flatMap printChar ++ [.scalar '\x22']

/-- A value without parts. -/
def printScalar : Scalar → Text
  | .null => "null".toText
  | .bool true => "true".toText
  | .bool false => "false".toText
  | .int n => ofInt n
  | .float x => x.text "Infinity".toText "NaN".toText
  | .text t => printText t

/-- The start of a line at a depth of nesting. -/
def indent (depth : Nat) : Text := '\n' :: List.replicate (2 * depth) ' '

mutual

/-- A value whose own line is at the given depth. -/
def print (depth : Nat) : Json → Text
  | .scalar s => printScalar s
  | .array [] => ['[', ']']
  | .array (item :: items) =>
    .scalar '[' :: indent (depth + 1) ++ print (depth + 1) item ++ printItems depth items
  | .object [] => ['\x7b', '\x7d']
  | .object ((name, v) :: members) =>
    .scalar '\x7b' :: indent (depth + 1) ++ printText name ++ ": ".toText ++ print (depth + 1) v
      ++ printMembers depth members

/-- The items after the first one, and the closing bracket. -/
def printItems (depth : Nat) : List Json → Text
  | [] => indent depth ++ [.scalar ']']
  | item :: items =>
    .scalar ',' :: indent (depth + 1) ++ print (depth + 1) item ++ printItems depth items

/-- The members after the first one, and the closing brace. -/
def printMembers (depth : Nat) : List (Text × Json) → Text
  | [] => indent depth ++ [.scalar '\x7d']
  | (name, v) :: members =>
    .scalar ',' :: indent (depth + 1) ++ printText name ++ ": ".toText ++ print (depth + 1) v
      ++ printMembers depth members

end

end TerminalMarkup.Json
