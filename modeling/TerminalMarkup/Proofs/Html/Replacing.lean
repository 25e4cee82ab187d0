/-
Five replacements one after the other.

`escape` looks at every character once.  It can also be done with nothing but a way to
replace one character in a whole text: five times, where each replacement sees what the
ones before it have written.  That comes to the same if no replacement writes a character
that a later one looks for, and this is why the ampersand has to be first: all five write
one (`inTurn_eq`).
-/
import Mathlib.Data.List.Basic
import TerminalMarkup.Proofs.Html.Escaping

namespace TerminalMarkup

/-- The text with one character replaced wherever it stands. -/
def Text.replaceChar (t : Text) (old : CodePoint) (new : Text) : Text :=
  t.flatMap fun c => if c = old then new else [c]

namespace Html

/-- A text with characters replaced, one after the other, each in the whole of what is there by
then. -/
def inTurn (replacements : List (CodePoint × Text)) (t : Text) : Text :=
  replacements.foldl (fun t r => t.replaceChar r.1 r.2) t

/-- What replacements make of one character if all are made at once. -/
def atOnce : List (CodePoint × Text) → CodePoint → Text
  | [], c => [c]
  | (old, new) :: rest, c => if c = old then new else atOnce rest c

/-- The replacements that escape a text, in their order. -/
def replacements : List (CodePoint × Text) :=
  [('&', "&amp;".toText), ('>', "&gt;".toText), ('<', "&lt;".toText),
    ('\x22', "&quot;".toText), ('\x27', "&#x27;".toText)]

theorem atOnce_of_not_mem {rs : List (CodePoint × Text)} {c : CodePoint} (h : ∀ r ∈ rs, c ≠ r.1) :
    atOnce rs c = [c] := by
  induction rs with
  | nil => rfl
  | cons r rs ih =>
      obtain ⟨hr, hrs⟩ := List.forall_mem_cons.mp h
      rw [atOnce, if_neg hr, ih hrs]

/-- What no replacement looks for is left alone. -/
theorem flatMap_atOnce_of_not_mem {rs : List (CodePoint × Text)} {t : Text}
    (h : ∀ r ∈ rs, r.1 ∉ t) : t.flatMap (atOnce rs) = t := by
  have hchar : ∀ c ∈ t, atOnce rs c = [c] := fun c hc =>
    atOnce_of_not_mem fun r hr heq => h r hr (heq ▸ hc)
  rw [List.flatMap_congr hchar, List.flatMap_singleton']

/-- **Replacements may be made in turn or at once, if none writes what a later one looks for.** -/
theorem inTurn_eq {rs : List (CodePoint × Text)} (h : rs.Pairwise fun r later => later.1 ∉ r.2)
    (t : Text) : inTurn rs t = t.flatMap (atOnce rs) := by
  -- What the first replacement writes is safe from the rest, and a character that it leaves goes
  -- on to them alone.
  induction rs generalizing t with
  | nil => exact (List.flatMap_singleton' t).symm
  | cons r rs ih =>
      obtain ⟨hfirst, hrest⟩ := List.pairwise_cons.mp h
      have hchar : ∀ c,
          (if c = r.1 then r.2 else [c]).flatMap (atOnce rs) = atOnce (r :: rs) c := by
        intro c
        rw [atOnce]
        split
        · exact flatMap_atOnce_of_not_mem hfirst
        · exact List.flatMap_singleton ..
      calc inTurn (r :: rs) t
          = inTurn rs (t.replaceChar r.1 r.2) := rfl
        _ = (t.replaceChar r.1 r.2).flatMap (atOnce rs) := ih hrest _
        _ = t.flatMap (atOnce (r :: rs)) := by
            rw [Text.replaceChar, List.flatMap_assoc]
            exact List.flatMap_congr fun c _ => hchar c

/-- All five at once are what is done to every character. -/
theorem atOnce_replacements (c : CodePoint) : atOnce replacements c = escapeChar c := by
  by_cases hspecial : ∃ r ∈ replacements, c = r.1
  · obtain ⟨r, hr, rfl⟩ := hspecial
    revert r
    decide
  · push Not at hspecial
    have hne : c ≠ '&' ∧ c ≠ '>' ∧ c ≠ '<' ∧ c ≠ '\x22' ∧ c ≠ '\x27' := by
      simpa [replacements] using hspecial
    obtain ⟨hamp, hgt, hlt, hquote, happos⟩ := hne
    rw [atOnce_of_not_mem hspecial, escapeChar_of_ne hamp hlt hgt hquote happos]

theorem inTurn_replacements (t : Text) : inTurn replacements t = escape t := by
  have hpairwise : replacements.Pairwise fun r later => later.1 ∉ r.2 := by decide
  rw [inTurn_eq hpairwise, funext atOnce_replacements]
  rfl

-- With the ampersand last, what the others have written is escaped once more.
example : inTurn replacements.reverse ['<'] = "&amp;lt;".toText := by decide

/--
**Escaping is done character by character and can be undone.**  The five replacements, made in
turn, are `escape`; it keeps concatenation; no character that ends an element or an attribute is
left, and an ampersand only where a reference begins; taking the references back gives the text,
so that different texts stay different.
-/
theorem escape_reversible (a b : Text) :
    inTurn replacements a = escape a ∧
    escape (a ++ b) = escape a ++ escape b ∧
    (∀ c ∈ escape a, c ≠ '<' ∧ c ≠ '>' ∧ c ≠ '\x22' ∧ c ≠ '\x27') ∧
    (∀ rest, .scalar '&' :: rest <:+ escape a → ∃ r ∈ replacements, r.2 <+: .scalar '&' :: rest) ∧
    unescape (escape a) = a ∧
    (escape a = escape b ↔ a = b) := by
  refine ⟨inTurn_replacements a, escape_append a b, fun c hc => (mem_escape hc).1, ?_,
    unescape_escape a, ?_⟩
  · intro rest hsuffix
    obtain ⟨reference, hreference, hprefix⟩ := reference_escape a rest hsuffix
    have hwritten : references ⊆ replacements.map Prod.snd := by decide
    obtain ⟨r, hr, rfl⟩ := List.mem_map.mp (hwritten hreference)
    exact ⟨r, hr, hprefix⟩
  · constructor
    · intro h
      rw [← unescape_escape a, h, unescape_escape]
    · exact congrArg escape

end Html

end TerminalMarkup
