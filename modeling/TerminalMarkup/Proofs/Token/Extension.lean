/-
More input changes nothing that has been read.

`Token.read` answers from the front of a buffer that may still grow.  Two kinds of
answers have to be told apart.  A word that has been found is found in the longer
buffer too, which is immediate from the grammar.  An escape character that has
been given up stays given up only because of what the reader saw before it gave
up: a character that no control sequence can contain, or both terminators of a
command that is no hyperlink.  `isBroken_iff` and the lemmas on `Terminator.search`
turn these observations into statements about the characters of the buffer, and
those do not change when characters are added at its end.

The one exception is text.  A text token that takes up the whole buffer grows with
it, and `read_append` says that this is all that can happen.
-/
import TerminalMarkup.Proofs.Token.Readings

namespace TerminalMarkup

open Text

namespace ControlSequence

/-! ### Control sequences -/

theorem read?_append {t rest : Text} {s : ControlSequence} (h : read? t = some (s, rest))
    (more : Text) : read? (t ++ more) = some (s, rest ++ more) := by
  obtain ⟨hs, rfl⟩ := read?_eq_some.mp h
  rw [List.append_assoc]
  exact read?_body hs _

/-- A character that no control sequence contains comes after graphic characters only. -/
theorem isBroken_iff {t : Text} :
    isBroken t = true ↔ ∃ (run : Text) (c : CodePoint) (rest : Text),
      (∀ d ∈ run, isGraphic d = true) ∧ t = run ++ c :: rest ∧ (c = ':' ∨ isControl c = true) := by
  have hsplit := List.takeWhile_append_dropWhile (p := isGraphic) (l := t)
  have hgraphic : ∀ d ∈ t.takeWhile isGraphic, isGraphic d = true := fun _ hd => mem_takeWhile hd
  constructor
  · intro h
    simp only [isBroken, Bool.or_eq_true, List.contains_iff_mem] at h
    rcases h with h | h
    · obtain ⟨run, rest, hrun⟩ := List.append_of_mem h
      rw [hrun] at hsplit hgraphic
      refine ⟨run, ':', rest ++ t.dropWhile isGraphic, ?_, ?_, Or.inl rfl⟩
      · exact fun d hd => hgraphic d (by simp [hd])
      · exact hsplit.symm.trans (by simp)
    · cases hdrop : t.dropWhile isGraphic with
      | nil => simp [hdrop] at h
      | cons c rest =>
          rw [hdrop] at h hsplit
          exact ⟨_, c, rest, hgraphic, hsplit.symm, Or.inr h⟩
  · rintro ⟨run, c, rest, hrun, rfl, hc⟩
    simp only [isBroken, Bool.or_eq_true, List.contains_iff_mem]
    rcases hc with rfl | hc
    · left
      rw [List.takeWhile_append_of_pos hrun, List.takeWhile_cons_of_pos (by decide)]
      simp
    · right
      have hstop : Avoids isGraphic (c :: rest) := by
        refine .cons ?_ rest
        simp only [isControl, isGraphic, decide_eq_true_eq, Bool.and_eq_false_iff,
          decide_eq_false_iff_not] at hc ⊢
        omega
      rw [dropWhile_run hrun hstop]
      exact hc

theorem isBroken_append {t : Text} (h : isBroken t = true) (more : Text) :
    isBroken (t ++ more) = true := by
  obtain ⟨run, c, rest, hrun, rfl, hc⟩ := isBroken_iff.mp h
  exact isBroken_iff.mpr ⟨run, c, rest ++ more, hrun, by simp, hc⟩

/-- A broken text has no control sequence at its front, however it goes on. -/
theorem read?_append_of_isBroken {t : Text} (h : read? t = none) (hbroken : isBroken t = true)
    (more : Text) : read? (t ++ more) = none := by
  cases hread : read? (t ++ more) with
  | none => rfl
  | some word =>
      obtain ⟨s, rest⟩ := word
      exfalso
      obtain ⟨hs, heq⟩ := read?_eq_some.mp hread
      rcases List.append_eq_append_iff.mp heq with ⟨tail, hbody, -⟩ | ⟨tail, ht, -⟩
      · -- The text is part of the word, which has no such character.
        obtain ⟨run, c, rest, -, rfl, hc⟩ := isBroken_iff.mp hbroken
        obtain ⟨hgraphic, hcolon⟩ := hs.of_mem_body (c := c) (by rw [hbody]; simp)
        rcases hc with hc | hc
        · exact hcolon hc
        · simp only [isControl, isGraphic, decide_eq_true_eq, Bool.and_eq_true] at hc hgraphic
          omega
      · rw [ht, read?_body hs] at h
        simp at h

end ControlSequence

namespace Terminator

/-! ### The search for a terminator -/

theorem read?_append_eq_none {c : CodePoint} {t : Text} (h : read? (c :: t) = none) (hne : t ≠ [])
    (more : Text) : read? (c :: t ++ more) = none := by
  cases t with
  | nil => exact absurd rfl hne
  | cons d rest =>
      simp only [List.cons_append]
      by_cases hbel : c = bel
      · simp [read?, hbel] at h
      by_cases hesc : c = esc
      · by_cases hd : d = '\\'
        · simp [read?, hesc, hd, esc, bel] at h
        · simp [read?, hesc, hd, esc, bel]
      · simp [read?, hbel, hesc]

theorem read?_eq_none {c : CodePoint} (hbel : c ≠ bel) (hesc : c ≠ esc) (t : Text) :
    read? (c :: t) = none := by simp [read?, hbel, hesc]

/-- A result of a search, for a text with more at its end. -/
def Search.extended (more : Text) : Search → Search
  | .found rest => .found (rest ++ more)
  | s => s

/-- A search that has not run out of text does not notice that there is more. -/
theorem search_append {t : Text} (h : search t ≠ .missing) (more : Text) :
    search (t ++ more) = (search t).extended more := by
  induction t with
  | nil => simp [search] at h
  | cons c t ih =>
      rw [search] at h ⊢
      rw [List.cons_append, search]
      cases hread : read? (c :: t) with
      | some found =>
          obtain ⟨e, rest⟩ := found
          have happ : read? (c :: (t ++ more)) = some (e, rest ++ more) := by
            rw [← List.cons_append, read?_eq_some.mp hread, List.append_assoc]
            exact read?_eq_some.mpr rfl
          rw [happ]
          rfl
      | none =>
          simp only [hread] at h ⊢
          by_cases hbar : isBarred c = true
          · have hc : c ≠ bel ∧ c ≠ esc := by
              simp only [isBarred, Bool.and_eq_true, bne_iff_ne, ne_eq] at hbar
              exact ⟨hbar.1.2, hbar.2⟩
            simp [read?_eq_none hc.1 hc.2, hbar, Search.extended]
          · rw [if_neg hbar] at h ⊢
            have hne : t ≠ [] := by
              rintro rfl
              simp [search] at h
            have happ := read?_append_eq_none hread hne more
            rw [List.cons_append] at happ
            simp only [happ, if_neg hbar]
            exact ih h

theorem search_append_found {t rest : Text} (h : search t = .found rest) (more : Text) :
    search (t ++ more) = .found (rest ++ more) := by
  rw [search_append (h ▸ Search.noConfusion), h]
  rfl

theorem search_append_barred {t : Text} (h : search t = .barred) (more : Text) :
    search (t ++ more) = .barred := by
  rw [search_append (h ▸ Search.noConfusion), h]
  rfl

/-- Graphic characters are passed over. -/
theorem search_run {run : Text} (hrun : ∀ c ∈ run, ControlSequence.isGraphic c = true) (t : Text) :
    search (run ++ t) = search t := by
  induction run with
  | nil => rfl
  | cons c run ih =>
      have hc : c ≠ bel ∧ c ≠ esc ∧ ¬isBarred c = true := by
        have hgraphic := hrun c (by simp)
        refine ⟨?_, ?_, ?_⟩
        · rintro rfl
          exact absurd hgraphic (by decide)
        · rintro rfl
          exact absurd hgraphic (by decide)
        · simp only [ControlSequence.isGraphic, Bool.and_eq_true, decide_eq_true_eq] at hgraphic
          simp only [isBarred, ControlSequence.isControl, Bool.and_eq_true, decide_eq_true_eq]
          omega
      rw [List.cons_append, search, read?_eq_none hc.1 hc.2.1]
      simp only [if_neg hc.2.2]
      exact ih fun d hd => hrun d (by simp [hd])

theorem search_spell (e : Terminator) (t : Text) : search (e.spell ++ t) = .found t := by
  have hread := read?_eq_some.mpr (rfl : e.spell ++ t = e.spell ++ t)
  cases e with
  | bell => rfl
  | backslash =>
      simp only [spell, List.cons_append, List.nil_append] at hread ⊢
      rw [search, hread]

theorem search_closing (t : Text) : search (Hyperlink.closing ++ t) = search t := by
  have hread : ∀ rest, read? (esc :: ']' :: rest) = none := fun rest => by
    simp [read?, esc, bel]
  have hgraphic : ∀ c ∈ "]8;;".toText, ControlSequence.isGraphic c = true :=
    List.all_eq_true.mp rfl
  calc search (Hyperlink.closing ++ t) = search ("]8;;".toText ++ t) := by
        rw [Hyperlink.closing, List.cons_append, List.cons_append, search, hread]
        rfl
    _ = search t := search_run hgraphic t

end Terminator

namespace Hyperlink

/-! ### Hyperlinks -/

theorem read?_append {t rest : Text} {l : Hyperlink} (h : read? t = some (l, rest))
    (more : Text) : read? (t ++ more) = some (l, rest ++ more) := by
  obtain ⟨hl, rfl⟩ := read?_eq_some.mp h
  rw [List.append_assoc]
  exact read?_body hl _

/-- What follows the first terminator of a hyperlink. -/
def afterUrl (l : Hyperlink) : Text := l.label ++ closing ++ l.labelEnd.spell

theorem search_body {l : Hyperlink} (h : l.WellFormed) (rest : Text) :
    Terminator.search (l.body ++ rest) = .found (l.afterUrl ++ rest) := by
  obtain ⟨hparams, hurl, -⟩ := h
  have hrun : ∀ c ∈ l.params ++ [.scalar ';'] ++ l.url, ControlSequence.isGraphic c = true := by
    intro c hc
    simp only [List.mem_append, List.mem_singleton] at hc
    rcases hc with (hc | rfl) | hc
    · exact isGraphic_of_isParam (hparams c hc)
    · decide
    · exact isGraphic_of_isUrl (hurl c hc)
  have hbody : l.body ++ rest
      = (l.params ++ [.scalar ';'] ++ l.url) ++ (l.urlEnd.spell ++ (l.afterUrl ++ rest)) := by
    simp [body, afterUrl]
  rw [hbody, Terminator.search_run hrun, Terminator.search_spell]

theorem search_afterUrl {l : Hyperlink} (h : l.WellFormed) (rest : Text) :
    Terminator.search (l.afterUrl ++ rest) = .found rest := by
  obtain ⟨-, -, -, -, hlabel, -⟩ := h
  simp only [afterUrl, List.append_assoc]
  rw [Terminator.search_run hlabel, Terminator.search_closing, Terminator.search_spell]

/-- Where both terminators have been seen and there is no hyperlink, there will be none: its
second terminator would be the second one seen. -/
theorem read?_append_of_terminated {t label rest : Text} (h : read? t = none)
    (hfirst : Terminator.search t = .found label) (hsecond : Terminator.search label = .found rest)
    (more : Text) : read? (t ++ more) = none := by
  cases hread : read? (t ++ more) with
  | none => rfl
  | some word =>
      obtain ⟨l, tail⟩ := word
      exfalso
      obtain ⟨hl, heq⟩ := read?_eq_some.mp hread
      have hlabel : label ++ more = l.afterUrl ++ tail := by
        have hlong := Terminator.search_append_found hfirst more
        rw [heq, search_body hl, Terminator.Search.found.injEq] at hlong
        exact hlong.symm
      have htail : tail = rest ++ more := by
        have hlong := Terminator.search_append_found hsecond more
        rwa [hlabel, search_afterUrl hl, Terminator.Search.found.injEq] at hlong
      rw [htail, ← List.append_assoc] at heq
      rw [List.append_cancel_right heq, read?_body hl] at h
      simp at h

end Hyperlink

namespace Token

/-! ### Tokens -/

theorem readControl_append {body rest : Text} {t : Token} (h : readControl body = .token t rest)
    (more : Text) : readControl (body ++ more) = .token t (rest ++ more) := by
  unfold readControl at h ⊢
  cases hread : ControlSequence.read? body with
  | some word =>
      obtain ⟨s, tail⟩ := word
      simp only [hread, Reading.token.injEq] at h
      obtain ⟨rfl, rfl⟩ := h
      rw [ControlSequence.read?_append hread]
  | none =>
      simp only [hread] at h
      by_cases hbroken : ControlSequence.isBroken body = true
      · simp only [if_pos hbroken, Reading.token.injEq] at h
        obtain ⟨rfl, rfl⟩ := h
        rw [ControlSequence.read?_append_of_isBroken hread hbroken]
        simp [ControlSequence.isBroken_append hbroken]
      · simp [hbroken] at h

theorem readHyperlink_append {body rest : Text} {t : Token}
    (h : readHyperlink body = .token t rest) (more : Text) :
    readHyperlink (body ++ more) = .token t (rest ++ more) := by
  unfold readHyperlink at h ⊢
  cases hfirst : Terminator.search body with
  | missing => simp [hfirst] at h
  | barred =>
      simp only [hfirst, Reading.token.injEq] at h
      obtain ⟨rfl, rfl⟩ := h
      simp [Terminator.search_append_barred hfirst]
  | found label =>
      simp only [hfirst] at h
      simp only [Terminator.search_append_found hfirst]
      cases hsecond : Terminator.search label with
      | missing => simp [hsecond] at h
      | barred =>
          simp only [hsecond, Reading.token.injEq] at h
          obtain ⟨rfl, rfl⟩ := h
          simp [Terminator.search_append_barred hsecond]
      | found tail =>
          simp only [hsecond] at h
          simp only [Terminator.search_append_found hsecond]
          cases hread : Hyperlink.read? body with
          | some word =>
              obtain ⟨l, after⟩ := word
              simp only [hread, Reading.token.injEq] at h
              obtain ⟨rfl, rfl⟩ := h
              rw [Hyperlink.read?_append hread]
          | none =>
              simp only [hread, Reading.token.injEq] at h
              obtain ⟨rfl, rfl⟩ := h
              rw [Hyperlink.read?_append_of_terminated hread hfirst hsecond]
              simp

theorem readCommand_append {body rest : Text} {t : Token} (h : readCommand body = .token t rest)
    (more : Text) : readCommand (body ++ more) = .token t (rest ++ more) := by
  match body with
  | [] => simp at h
  | [_] => simp at h
  | c :: d :: tail =>
      by_cases hopening : c = '8' ∧ d = ';'
      · obtain ⟨rfl, rfl⟩ := hopening
        exact readHyperlink_append h more
      · rw [readCommand_other hopening, Reading.token.injEq] at h
        obtain ⟨rfl, rfl⟩ := h
        exact readCommand_other hopening _

theorem readEscape_append {buffer rest : Text} {t : Token} (h : readEscape buffer = .token t rest)
    (more : Text) : readEscape (buffer ++ more) = .token t (rest ++ more) := by
  match buffer with
  | [] => simp at h
  | [_] => simp at h
  | c :: d :: tail =>
      by_cases hcontrol : c = '['
      · subst hcontrol
        rw [readEscape_control] at h
        rw [List.cons_append, readEscape_control]
        exact readControl_append h more
      by_cases hcommand : c = ']'
      · subst hcommand
        rw [readEscape_command] at h
        rw [List.cons_append, readEscape_command]
        exact readCommand_append h more
      by_cases hcharset : c = '('
      · subst hcharset
        rw [readEscape_charset, Reading.token.injEq] at h
        obtain ⟨rfl, rfl⟩ := h
        rfl
      · rw [readEscape_other hcontrol hcommand hcharset, Reading.token.injEq] at h
        obtain ⟨rfl, rfl⟩ := h
        exact readEscape_other hcontrol hcommand hcharset _ _

/--
**What has been read stays read.**  With more characters at the end of the buffer
the same token is read and they follow what is left.  Only a text token that the
buffer ended with may grow: then the characters it grows by would also have been
read as text had they come later.
-/
theorem read_append {buffer rest : Text} {t : Token} (h : read buffer = .token t rest)
    (more : Text) :
    read (buffer ++ more) = .token t (rest ++ more) ∨
      ∃ run tail, t = .text buffer ∧ rest = [] ∧ read more = .token (.text run) tail ∧
        read (buffer ++ more) = .token (.text (buffer ++ run)) tail := by
  rcases read_cases h with ⟨chars, hne, hchars, hrest, rfl, rfl⟩ | ⟨tail, rfl, htail⟩
  · by_cases hmore : Avoids isOrdinary (rest ++ more)
    · left
      rw [List.append_assoc]
      exact read_run hne hchars hmore
    · right
      have hnil : rest = [] := by
        cases rest with
        | nil => rfl
        | cons c tail => exact absurd (fun d hd => hrest d (by simpa using hd)) hmore
      subst hnil
      have hgrown : ¬Avoids isOrdinary (chars ++ more) := by
        cases chars with
        | nil => exact absurd rfl hne
        | cons c chars =>
            intro hstop
            have := hstop c (by simp)
            simp [hchars c (by simp)] at this
      refine ⟨_, _, by simp, rfl, read_takeWhile hmore, ?_⟩
      rw [List.append_nil, read_takeWhile hgrown, List.takeWhile_append_of_pos hchars,
        List.dropWhile_append_of_pos hchars]
  · left
    rw [List.cons_append, read_esc]
    exact readEscape_append htail more

end Token

end TerminalMarkup
