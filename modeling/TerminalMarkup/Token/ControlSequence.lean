/-
Control sequences: `ESC [`, perhaps a private mark, parameters, perhaps an
intermediate character, and a final character.

The classes of these parts do not overlap, so a text has at most one control
sequence at its front and `read?` finds it without going back.  A text that has
none is either broken for good, because a colon or a control character has come
before the final character, or may still become a control sequence.
-/
import TerminalMarkup.Text.DecimalDigit

namespace TerminalMarkup

/-- The parts of a control sequence. -/
structure ControlSequence where
  mark : Option CodePoint
  params : Text
  intermediate : Option CodePoint
  final : CodePoint
  deriving DecidableEq, Repr

namespace ControlSequence

open Text

/-! ### The classes of characters -/

/-- Printing ASCII, the space included. -/
def isGraphic (c : CodePoint) : Bool := 0x20 ≤ c.toNat && c.toNat ≤ 0x7e

/-- The marks of private sequences: `<`, `=`, `>` and `?`. -/
def isMark (c : CodePoint) : Bool := 0x3c ≤ c.toNat && c.toNat ≤ 0x3f

/-- Digits and semicolons. -/
def isParam (c : CodePoint) : Bool := isAsciiDigit c || c == ';'

/-- From the space to the slash. -/
def isIntermediate (c : CodePoint) : Bool := 0x20 ≤ c.toNat && c.toNat ≤ 0x2f

/-- From the at sign to the tilde. -/
def isFinal (c : CodePoint) : Bool := 0x40 ≤ c.toNat && c.toNat ≤ 0x7e

/-- The characters below the space. -/
def isControl (c : CodePoint) : Bool := c.toNat < 0x20

/-! ### Words -/

/-- The sequence without the two characters that introduce it. -/
def body (s : ControlSequence) : Text :=
  s.mark.toList ++ s.params ++ s.intermediate.toList ++ [s.final]

/-- The sequence in full. -/
def spell (s : ControlSequence) : Text := esc :: '[' :: s.body

/-- Every part is made of characters of its class. -/
def WellFormed (s : ControlSequence) : Prop :=
  (∀ c ∈ s.mark, isMark c) ∧ (∀ c ∈ s.params, isParam c) ∧
    (∀ c ∈ s.intermediate, isIntermediate c) ∧ isFinal s.final

/-- Whether the sequence selects a graphic rendition: a lone final `m`. -/
def isRendition (s : ControlSequence) : Bool :=
  s.mark.isNone && s.intermediate.isNone && s.final == 'm'

/-! ### Reading -/

/-- The control sequence whose body the text begins with, and the text after it. -/
def read? (t : Text) : Option (ControlSequence × Text) :=
  let (mark, t) := takeOne isMark t
  let params := t.takeWhile isParam
  let (intermediate, t) := takeOne isIntermediate (t.dropWhile isParam)
  match t with
  | [] => none
  | final :: rest =>
    if isFinal final then some (⟨mark, params, intermediate, final⟩, rest) else none

/-- Whether the text, which begins with no body, can never be made to by adding to it: a colon
stands among its leading graphic characters, or a control character right after them. -/
def isBroken (t : Text) : Bool :=
  (t.takeWhile isGraphic).contains ':' ||
    match t.dropWhile isGraphic with
    | [] => false
    | c :: _ => isControl c

/-- What is read is spelled out in front of what is left. -/
theorem eq_append_of_read? {t rest : Text} {s : ControlSequence} (h : read? t = some (s, rest)) :
    t = s.body ++ rest := by
  have hmark := takeOne_append isMark t
  have hparams := List.takeWhile_append_dropWhile (p := isParam) (l := (takeOne isMark t).2)
  have hinter := takeOne_append isIntermediate ((takeOne isMark t).2.dropWhile isParam)
  unfold read? at h
  dsimp only at h
  split at h
  · simp at h
  · rename_i final tail hsplit
    split at h
    · simp only [Option.some.injEq, Prod.mk.injEq] at h
      obtain ⟨rfl, rfl⟩ := h
      rw [hsplit] at hinter
      simp only [body, List.append_assoc, List.singleton_append]
      rw [hinter, hparams, hmark]
    · simp at h

end ControlSequence

end TerminalMarkup
