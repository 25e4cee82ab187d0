/-
The tokens of a text that is all there.

`Token.read` waits where more characters may come and change its mind.  When
nothing more will come there is nothing to wait for: an escape character either has
a word of the grammar in front of it or stands for nothing.  `ofWhole` says this
and no more; in particular it searches for no terminator and knows no sequence that
is broken or unfinished.
-/
import TerminalMarkup.Token.Reader

namespace TerminalMarkup.Token

/-- The token that an escape character introduces, and the text after it. -/
def ofEscape (rest : Text) : Token × Text :=
  let stray := (.strayEscape, rest)
  match rest with
  | '[' :: body =>
    match ControlSequence.read? body with
    | some (s, rest) => (s.token, rest)
    | none => stray
  | ']' :: '8' :: ';' :: body =>
    match Hyperlink.read? body with
    | some (l, rest) => (l.token, rest)
    | none => stray
  | '(' :: _ :: rest => (.control [], rest)
  | _ => stray

theorem length_ofEscape_le (rest : Text) : (ofEscape rest).2.length ≤ rest.length := by
  unfold ofEscape
  dsimp only
  split
  · rename_i body
    split
    · rename_i s tail hs
      have hlength := congrArg List.length (ControlSequence.eq_append_of_read? hs)
      simp only [List.length_append, List.length_cons] at hlength ⊢
      omega
    · exact Nat.le_of_eq rfl
  · rename_i body
    split
    · rename_i l tail hl
      have hlength := congrArg List.length (Hyperlink.eq_append_of_read? hl)
      simp only [List.length_append, List.length_cons] at hlength ⊢
      omega
    · exact Nat.le_of_eq rfl
  · simp only [List.length_cons]
    omega
  · exact Nat.le_of_eq rfl

/-- The tokens of a text after which nothing comes. -/
def ofWhole : Text → List Token
  | [] => []
  | c :: rest =>
    if c = esc then (ofEscape rest).1 :: ofWhole (ofEscape rest).2
    else .text (c :: rest.takeWhile isOrdinary) :: ofWhole (rest.dropWhile isOrdinary)
termination_by t => t.length
decreasing_by
  · exact Nat.lt_succ_of_le (length_ofEscape_le rest)
  · exact Nat.lt_succ_of_le (List.dropWhile_sublist isOrdinary (l := rest)).length_le

/-! ### Text that has been cut -/

/-- A token before others: a text token takes in the characters of one that follows at once. -/
def joinOnto (t : Token) (rest : List Token) : List Token :=
  match t, rest with
  | .text a, .text b :: rest => .text (a ++ b) :: rest
  | t, rest => t :: rest

/-- The tokens with adjacent text tokens made one. -/
def joined (tokens : List Token) : List Token := tokens.foldr joinOnto []

end TerminalMarkup.Token
