/-
Hyperlinks: `ESC ] 8 ;`, parameters, `;`, an address and a terminator, then the
label, then `ESC ] 8 ; ;` and a second terminator.

A terminator is the bell or `ESC \`.  Neither can occur within the parameters,
the address or the label, so a hyperlink has exactly two, and until the second
has come it cannot be known whether there is a hyperlink at all.
-/
import TerminalMarkup.Token.ControlSequence

namespace TerminalMarkup

/-- What closes an operating system command. -/
inductive Terminator where
  | bell
  | backslash
  deriving DecidableEq, Repr

namespace Terminator

/-- The terminator as it is written. -/
def spell : Terminator → Text
  | .bell => [bel]
  | .backslash => [esc, '\\']

/-- The terminator at the front of a text, and the text after it. -/
def read? : Text → Option (Terminator × Text)
  | [] => none
  | c :: rest =>
    if c = bel then some (.bell, rest)
    else if c = esc then
      match rest with
      | '\\' :: rest => some (.backslash, rest)
      | _ => none
    else none

/-- How the search for a terminator ends. -/
inductive Search where
  /-- The text ends first. -/
  | missing
  /-- A character comes first that no command may contain. -/
  | barred
  /-- The text after the terminator. -/
  | found (rest : Text)
  deriving DecidableEq, Repr

/-- Control characters, but for the bell and the escape character. -/
def isBarred (c : CodePoint) : Bool := ControlSequence.isControl c && c != bel && c != esc

/-- The first terminator anywhere in a text. -/
def search : Text → Search
  | [] => .missing
  | c :: rest =>
    match read? (c :: rest) with
    | some (_, rest) => .found rest
    | none => if isBarred c then .barred else search rest

theorem eq_append_of_read? {t rest : Text} {e : Terminator} (h : read? t = some (e, rest)) :
    t = e.spell ++ rest := by
  fun_cases read? t <;> simp_all [read?, spell] <;> grind [spell]

end Terminator

/-- The parts of a hyperlink. -/
structure Hyperlink where
  params : Text
  url : Text
  urlEnd : Terminator
  label : Text
  labelEnd : Terminator
  deriving DecidableEq, Repr

namespace Hyperlink

open Text ControlSequence

/-- Graphic characters but the semicolon. -/
def isParam (c : CodePoint) : Bool := isGraphic c && c != ';'

/-- Graphic characters but the space. -/
def isUrl (c : CodePoint) : Bool := isGraphic c && c != ' '

/-- The longest address. -/
def maxUrlLength : Nat := 512

/-- What introduces a hyperlink, after `ESC ]`. -/
def opening : Text := ['8', ';']

/-- What follows the label, before the second terminator. -/
def closing : Text := [esc, ']', '8', ';', ';']

/-- The hyperlink from its parameters on. -/
def body (l : Hyperlink) : Text :=
  l.params ++ [.scalar ';'] ++ l.url ++ l.urlEnd.spell ++ l.label ++ closing ++ l.labelEnd.spell

/-- The hyperlink in full. -/
def spell (l : Hyperlink) : Text := esc :: .scalar ']' :: opening ++ l.body

/-- Every part is made of characters of its class, and the address and the label are neither
missing nor, in the case of the address, too long. -/
def WellFormed (l : Hyperlink) : Prop :=
  (∀ c ∈ l.params, isParam c) ∧ (∀ c ∈ l.url, isUrl c) ∧ l.url ≠ [] ∧
    l.url.length ≤ maxUrlLength ∧ (∀ c ∈ l.label, isGraphic c) ∧ l.label ≠ []

/-- The label and what is after it, for a hyperlink whose first half has been read. -/
def readLabel? (t : Text) : Option (Text × Terminator × Text) :=
  let label := t.takeWhile isGraphic
  if label = [] then none
  else
    match after? closing (t.dropWhile isGraphic) with
    | none => none
    | some t =>
      match Terminator.read? t with
      | none => none
      | some (labelEnd, rest) => some (label, labelEnd, rest)

/-- The hyperlink whose body the text begins with, and the text after it. -/
def read? (t : Text) : Option (Hyperlink × Text) :=
  let params := t.takeWhile isParam
  match after? [';'] (t.dropWhile isParam) with
  | none => none
  | some t =>
    let url := t.takeWhile isUrl
    if url = [] ∨ maxUrlLength < url.length then none
    else
      match Terminator.read? (t.dropWhile isUrl) with
      | none => none
      | some (urlEnd, t) =>
        match readLabel? t with
        | none => none
        | some (label, labelEnd, rest) => some (⟨params, url, urlEnd, label, labelEnd⟩, rest)

theorem eq_append_of_readLabel? {t label rest : Text} {e : Terminator}
    (h : readLabel? t = some (label, e, rest)) : t = label ++ closing ++ e.spell ++ rest := by
  have hlabel := List.takeWhile_append_dropWhile (p := isGraphic) (l := t)
  unfold readLabel? at h
  dsimp only at h
  split at h
  · simp at h
  split at h
  · simp at h
  rename_i u hclosing
  split at h
  · simp at h
  rename_i e' rest' hend
  simp only [Option.some.injEq, Prod.mk.injEq] at h
  obtain ⟨rfl, rfl, rfl⟩ := h
  rw [after?_eq_some.mp hclosing, Terminator.eq_append_of_read? hend] at hlabel
  simpa using hlabel.symm

/-- What is read is spelled out in front of what is left. -/
theorem eq_append_of_read? {t rest : Text} {l : Hyperlink} (h : read? t = some (l, rest)) :
    t = l.body ++ rest := by
  have hparams := List.takeWhile_append_dropWhile (p := isParam) (l := t)
  unfold read? at h
  dsimp only at h
  split at h
  · simp at h
  rename_i u hsemi
  have hurl := List.takeWhile_append_dropWhile (p := isUrl) (l := u)
  split at h
  · simp at h
  split at h
  · simp at h
  rename_i e v hend
  split at h
  · simp at h
  rename_i label labelEnd tail hlabel
  simp only [Option.some.injEq, Prod.mk.injEq] at h
  obtain ⟨rfl, rfl⟩ := h
  rw [after?_eq_some.mp hsemi] at hparams
  rw [Terminator.eq_append_of_read? hend, eq_append_of_readLabel? hlabel] at hurl
  calc t = t.takeWhile isParam ++ ([.scalar ';'] ++ u) := hparams.symm
    _ = t.takeWhile isParam ++ ([.scalar ';'] ++ (u.takeWhile isUrl ++
          (e.spell ++ (label ++ closing ++ labelEnd.spell ++ tail)))) := by rw [hurl]
    _ = _ := by simp [body]

end Hyperlink

end TerminalMarkup
