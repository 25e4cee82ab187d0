/-
Character references for the five characters that mean something in HTML.

`escape` writes the references and `unescape` reads them, and nothing else.  The
escaped form of a text has none of the characters `<`, `>`, `"` and `'`, so it can
stand in an element or in an attribute and cannot end either.
-/
import TerminalMarkup.Text.Basic

namespace TerminalMarkup.Html

/-- One character as it is written in HTML. -/
def escapeChar (c : CodePoint) : Text :=
  match c with
  | '&' => ['&', 'a', 'm', 'p', ';']
  | '<' => ['&', 'l', 't', ';']
  | '>' => ['&', 'g', 't', ';']
  | '\x22' => ['&', 'q', 'u', 'o', 't', ';']
  | '\x27' => ['&', '#', 'x', '2', '7', ';']
  | c => [c]

/-- A text as it is written in HTML. -/
def escape (t : Text) : Text := t.flatMap escapeChar

/-- The text that is written with the references of `escape`. -/
def unescape : Text → Text
  | '&' :: 'a' :: 'm' :: 'p' :: ';' :: rest => '&' :: unescape rest
  | '&' :: 'l' :: 't' :: ';' :: rest => '<' :: unescape rest
  | '&' :: 'g' :: 't' :: ';' :: rest => '>' :: unescape rest
  | '&' :: 'q' :: 'u' :: 'o' :: 't' :: ';' :: rest => '\x22' :: unescape rest
  | '&' :: '#' :: 'x' :: '2' :: '7' :: ';' :: rest => '\x27' :: unescape rest
  | c :: rest => c :: unescape rest
  | [] => []

theorem escape_append (a b : Text) : escape (a ++ b) = escape a ++ escape b := List.flatMap_append

theorem unescape_cons {c : CodePoint} (h : c ≠ '&') (rest : Text) :
    unescape (c :: rest) = c :: unescape rest := by
  conv => lhs; unfold unescape
  split <;> simp_all

theorem escapeChar_of_ne {c : CodePoint} (h1 : c ≠ '&') (h2 : c ≠ '<') (h3 : c ≠ '>')
    (h4 : c ≠ '\x22') (h5 : c ≠ '\x27') : escapeChar c = [c] := by
  unfold escapeChar
  split <;> simp_all

/-- Escaping is undone exactly. -/
theorem unescape_escape (t : Text) : unescape (escape t) = t := by
  induction t with
  | nil => rfl
  | cons c rest ih =>
    unfold escape at *
    rw [List.flatMap_cons]
    by_cases h1 : c = '&'
    · subst h1; simp [escapeChar, unescape, ih]
    by_cases h2 : c = '<'
    · subst h2; simp [escapeChar, unescape, ih]
    by_cases h3 : c = '>'
    · subst h3; simp [escapeChar, unescape, ih]
    by_cases h4 : c = '\x22'
    · subst h4; simp [escapeChar, unescape, ih]
    by_cases h5 : c = '\x27'
    · subst h5; simp [escapeChar, unescape, ih]
    rw [escapeChar_of_ne h1 h2 h3 h4 h5, List.singleton_append, unescape_cons h1, ih]

end TerminalMarkup.Html
