/-
Escaped text cannot be anything but text.

`StandsFor shown chars` says what one needs to know about a text that stands in HTML,
inside an element or inside a quoted attribute: nothing in it ends the element or
the attribute, no ampersand in it is other than the beginning of one of the five
references, and the references taken back it is the text that was meant.

`escape` writes texts so.  The proof goes through the characters.  Most are written
as they are, and the five others as a reference, whose only ampersand is its first
character; so an ampersand inside a written text is where a reference begins, or it
is in what follows.
-/
import TerminalMarkup.Html.Entity

namespace TerminalMarkup.Html

/-- The character references. -/
def references : List Text :=
  [['&', 'a', 'm', 'p', ';'], ['&', 'l', 't', ';'], ['&', 'g', 't', ';'],
    ['&', 'q', 'u', 'o', 't', ';'], ['&', '#', 'x', '2', '7', ';']]

/-- Characters that end an element, an attribute, or what is text altogether. -/
def IsMarkup (c : CodePoint) : Prop := c = '<' ∨ c = '>' ∨ c = '\x22' ∨ c = '\x27' ∨ c = esc

instance (c : CodePoint) : Decidable (IsMarkup c) :=
  inferInstanceAs (Decidable (c = '<' ∨ c = '>' ∨ c = '\x22' ∨ c = '\x27' ∨ c = esc))

/-- What is shown in HTML is the text and nothing else. -/
structure StandsFor (shown chars : Text) : Prop where
  noMarkup : ∀ c ∈ shown, ¬IsMarkup c
  reference : ∀ rest, .scalar '&' :: rest <:+ shown → ∃ r ∈ references, r <+: .scalar '&' :: rest
  decoded : unescape shown = chars

/-! ### One character -/

/-- A character is written as a reference or as itself, and an ampersand never as itself. -/
theorem escapeChar_cases (c : CodePoint) :
    escapeChar c ∈ references ∨
      (escapeChar c = [c] ∧ c ≠ '&' ∧ c ≠ '<' ∧ c ≠ '>' ∧ c ≠ '\x22' ∧ c ≠ '\x27') := by
  by_cases hamp : c = '&'
  · exact Or.inl (hamp ▸ by decide)
  by_cases hlt : c = '<'
  · exact Or.inl (hlt ▸ by decide)
  by_cases hgt : c = '>'
  · exact Or.inl (hgt ▸ by decide)
  by_cases hquote : c = '\x22'
  · exact Or.inl (hquote ▸ by decide)
  by_cases happos : c = '\x27'
  · exact Or.inl (happos ▸ by decide)
  · exact Or.inr ⟨escapeChar_of_ne hamp hlt hgt hquote happos, hamp, hlt, hgt, hquote, happos⟩

/-- A reference has one ampersand, which it begins with, and no markup. -/
theorem eq_cons_of_mem_references {r : Text} (h : r ∈ references) :
    ∃ name, r = .scalar '&' :: name ∧ ('&' : CodePoint) ∉ name ∧ ∀ c ∈ r, ¬IsMarkup c := by
  have hall : ∀ r ∈ references, r = .scalar '&' :: r.tail ∧ ('&' : CodePoint) ∉ r.tail ∧
      r.all (fun c => decide (¬IsMarkup c)) = true := by
    decide
  obtain ⟨hamp, hname, hmarkup⟩ := hall r h
  exact ⟨r.tail, hamp, hname, fun c hc => of_decide_eq_true (List.all_eq_true.mp hmarkup c hc)⟩

/-! ### All characters -/

/-- No text begins with an ampersand inside a name that has none. -/
theorem suffix_of_not_mem {name rest shown : Text} (h : ('&' : CodePoint) ∉ name)
    (hsuffix : .scalar '&' :: rest <:+ name ++ shown) : .scalar '&' :: rest <:+ shown := by
  induction name with
  | nil => exact hsuffix
  | cons c name ih =>
      rw [List.cons_append, List.suffix_cons_iff] at hsuffix
      rcases hsuffix with heq | hsuffix
      · exact absurd (List.cons.inj heq).1 fun hc => h (hc ▸ List.mem_cons_self ..)
      · exact ih (fun hmem => h (List.mem_cons_of_mem c hmem)) hsuffix

/-- Of a written text's characters none ends an element or an attribute, and an escape character is
one of the text. -/
theorem mem_escape {chars : Text} {d : CodePoint} (h : d ∈ escape chars) :
    (d ≠ '<' ∧ d ≠ '>' ∧ d ≠ '\x22' ∧ d ≠ '\x27') ∧ (d = esc → d ∈ chars) := by
  obtain ⟨c, hc, hd⟩ := List.mem_flatMap.mp h
  rcases escapeChar_cases c with hreference | ⟨hself, -, hlt, hgt, hquote, happos⟩
  · obtain ⟨name, -, -, hno⟩ := eq_cons_of_mem_references hreference
    have hmarkup := hno d hd
    simp only [IsMarkup, not_or] at hmarkup
    obtain ⟨hlt, hgt, hquote, happos, hesc⟩ := hmarkup
    exact ⟨⟨hlt, hgt, hquote, happos⟩, fun heq => absurd heq hesc⟩
  · rw [hself, List.mem_singleton] at hd
    subst hd
    exact ⟨⟨hlt, hgt, hquote, happos⟩, fun _ => hc⟩

theorem noMarkup_escape {chars : Text} (h : ∀ c ∈ chars, c ≠ esc) :
    ∀ c ∈ escape chars, ¬IsMarkup c := by
  intro d hd
  obtain ⟨⟨hlt, hgt, hquote, happos⟩, hesc⟩ := mem_escape hd
  rintro (h' | h' | h' | h' | h')
  · exact hlt h'
  · exact hgt h'
  · exact hquote h'
  · exact happos h'
  · exact h d (hesc h') h'

theorem reference_escape (chars : Text) :
    ∀ rest, .scalar '&' :: rest <:+ escape chars → ∃ r ∈ references, r <+: .scalar '&' :: rest := by
  induction chars with
  | nil =>
      intro rest h
      exact absurd (List.suffix_nil.mp h) (by simp)
  | cons c chars ih =>
      intro rest h
      have hcons : escape (c :: chars) = escapeChar c ++ escape chars := rfl
      rw [hcons] at h
      rcases escapeChar_cases c with hreference | ⟨hself, hamp, -⟩
      · obtain ⟨name, hname, hno, -⟩ := eq_cons_of_mem_references hreference
        rw [hname, List.cons_append, List.suffix_cons_iff] at h
        rcases h with heq | h
        · refine ⟨_, hreference, ?_⟩
          rw [hname, heq]
          exact List.prefix_append (.scalar '&' :: name) (escape chars)
        · exact ih rest (suffix_of_not_mem hno h)
      · rw [hself] at h
        exact ih rest (suffix_of_not_mem (by simpa using Ne.symm hamp) h)

/-- **Escaping writes any text that has no escape characters.** -/
theorem standsFor_escape {chars : Text} (h : ∀ c ∈ chars, c ≠ esc) :
    StandsFor (escape chars) chars where
  noMarkup := noMarkup_escape h
  reference := reference_escape chars
  decoded := unescape_escape chars

end TerminalMarkup.Html
