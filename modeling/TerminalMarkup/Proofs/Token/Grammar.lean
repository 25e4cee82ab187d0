/-
A text that is all there, according to the grammar alone.

`Lexes` says how a text falls into tokens without saying how it is read.  Text is
taken in the longest possible runs, a word of the grammar is one token, and an
escape character that begins no word stands alone.  `lexes_iff` shows that this
determines the tokens, and that `ofWhole` computes them.

The reader for streams comes to the same tokens in another way.  It has three
reasons to give up an escape character, and each of them must be right exactly when
there is no word: a broken control sequence, a command that is no hyperlink, and an
unfinished sequence at the end of the input.  Two facts are needed.  A word is
never refused (`readControl_body`, `readHyperlink_body`), so whatever is given up
began no word; and whatever is taken is a word, which is `spells_of_read`.
-/
import TerminalMarkup.Proofs.Token.Extension
import TerminalMarkup.Token.Whole

namespace TerminalMarkup.Token

open Text

/-! ### The grammar -/

/-- An escape character in front of the text begins no word. -/
structure NoWord (rest : Text) : Prop where
  control : ∀ (s : ControlSequence) (tail : Text), s.WellFormed → esc :: rest ≠ s.spell ++ tail
  hyperlink : ∀ (l : Hyperlink) (tail : Text), l.WellFormed → esc :: rest ≠ l.spell ++ tail
  charset : ∀ (c : CodePoint) (tail : Text), rest ≠ .scalar '(' :: c :: tail

/-- How a text falls into tokens. -/
inductive Lexes : Text → List Token → Prop
  | done : Lexes [] []
  /-- A run without escape characters, as long as possible. -/
  | text {run rest : Text} {ts : List Token} (hne : run ≠ []) (hrun : ∀ c ∈ run, c ≠ esc)
      (hrest : ∀ c ∈ rest.head?, c = esc) (h : Lexes rest ts) :
      Lexes (run ++ rest) (.text run :: ts)
  | control {s : ControlSequence} {rest : Text} {ts : List Token} (hs : s.WellFormed)
      (h : Lexes rest ts) : Lexes (s.spell ++ rest) (s.token :: ts)
  | hyperlink {l : Hyperlink} {rest : Text} {ts : List Token} (hl : l.WellFormed)
      (h : Lexes rest ts) : Lexes (l.spell ++ rest) (l.token :: ts)
  | charset (c : CodePoint) {rest : Text} {ts : List Token} (h : Lexes rest ts) :
      Lexes (esc :: '(' :: c :: rest) (.control [] :: ts)
  | stray {rest : Text} {ts : List Token} (hno : NoWord rest) (h : Lexes rest ts) :
      Lexes (esc :: rest) (.strayEscape :: ts)

/-! ### One escape character -/

theorem ofEscape_control {s : ControlSequence} (hs : s.WellFormed) (rest : Text) :
    ofEscape ('[' :: (s.body ++ rest)) = (s.token, rest) := by
  simp only [ofEscape, ControlSequence.read?_body hs]

theorem ofEscape_hyperlink {l : Hyperlink} (hl : l.WellFormed) (rest : Text) :
    ofEscape (']' :: '8' :: ';' :: (l.body ++ rest)) = (l.token, rest) := by
  simp only [ofEscape, Hyperlink.read?_body hl]

theorem ofEscape_charset (c : CodePoint) (rest : Text) :
    ofEscape ('(' :: c :: rest) = (.control [], rest) := rfl

theorem ofEscape_noWord {rest : Text} (h : NoWord rest) : ofEscape rest = (.strayEscape, rest) := by
  unfold ofEscape
  dsimp only
  split
  · rename_i body
    split
    · rename_i s tail hread
      obtain ⟨hs, rfl⟩ := ControlSequence.read?_eq_some.mp hread
      exact absurd rfl (h.control s tail hs)
    · rfl
  · rename_i body
    split
    · rename_i l tail hread
      obtain ⟨hl, rfl⟩ := Hyperlink.read?_eq_some.mp hread
      exact absurd (by simp [Hyperlink.spell, Hyperlink.opening]) (h.hyperlink l tail hl)
    · rfl
  · rename_i c tail
    exact absurd rfl (h.charset c tail)
  · rfl

/-- Either a word begins with the escape character, which is then the token, or none does. -/
theorem word_or_noWord (rest : Text) :
    (∃ s tail, s.WellFormed ∧ rest = .scalar '[' :: (ControlSequence.body s ++ tail)) ∨
      (∃ l tail, l.WellFormed ∧
        rest = .scalar ']' :: .scalar '8' :: .scalar ';' :: (Hyperlink.body l ++ tail)) ∨
      (∃ c tail, rest = .scalar '(' :: c :: tail) ∨ NoWord rest := by
  by_cases hcontrol : ∃ s tail, s.WellFormed ∧
      rest = .scalar '[' :: (ControlSequence.body s ++ tail)
  · exact Or.inl hcontrol
  by_cases hlink : ∃ l tail, l.WellFormed ∧
      rest = .scalar ']' :: .scalar '8' :: .scalar ';' :: (Hyperlink.body l ++ tail)
  · exact Or.inr (Or.inl hlink)
  by_cases hcharset : ∃ c tail, rest = .scalar '(' :: c :: tail
  · exact Or.inr (Or.inr (Or.inl hcharset))
  refine Or.inr (Or.inr (Or.inr ⟨?_, ?_, ?_⟩))
  · intro s tail hs heq
    exact hcontrol ⟨s, tail, hs, (List.cons.inj heq).2⟩
  · intro l tail hl heq
    refine hlink ⟨l, tail, hl, ?_⟩
    simpa [Hyperlink.spell, Hyperlink.opening] using heq
  · intro c tail heq
    exact hcharset ⟨c, tail, heq⟩

/-! ### The grammar determines the tokens -/

@[simp] theorem ofWhole_nil : ofWhole [] = [] := by rw [ofWhole]

theorem ofWhole_esc (rest : Text) :
    ofWhole (esc :: rest) = (ofEscape rest).1 :: ofWhole (ofEscape rest).2 := by
  rw [ofWhole, if_pos rfl]

theorem ofWhole_run {run rest : Text} (hne : run ≠ []) (hrun : ∀ c ∈ run, isOrdinary c = true)
    (hrest : Avoids isOrdinary rest) : ofWhole (run ++ rest) = .text run :: ofWhole rest := by
  cases run with
  | nil => exact absurd rfl hne
  | cons c run =>
      have hc : c ≠ esc := isOrdinary_iff.mp (hrun c (by simp))
      have hrun' : ∀ d ∈ run, isOrdinary d = true := fun d hd => hrun d (by simp [hd])
      rw [List.cons_append, ofWhole, if_neg hc, takeWhile_run hrun' hrest,
        dropWhile_run hrun' hrest]

theorem eq_ofWhole_of_lexes {t : Text} {ts : List Token} (h : Lexes t ts) : ts = ofWhole t := by
  induction h with
  | done => exact ofWhole_nil.symm
  | text hne hrun hrest _ ih =>
      rw [ofWhole_run hne (fun c hc => isOrdinary_iff.mpr (hrun c hc))
        (avoids_isOrdinary.mpr hrest), ← ih]
  | @control s rest ts hs _ ih =>
      show s.token :: ts = ofWhole (esc :: '[' :: (s.body ++ rest))
      rw [ofWhole_esc, ofEscape_control hs, ← ih]
  | @hyperlink l rest ts hl _ ih =>
      have hspell : l.spell ++ rest = esc :: ']' :: '8' :: ';' :: (l.body ++ rest) := by
        simp [Hyperlink.spell, Hyperlink.opening]
      rw [hspell, ofWhole_esc, ofEscape_hyperlink hl, ← ih]
  | charset c _ ih => rw [ofWhole_esc, ofEscape_charset, ← ih]
  | stray hno _ ih => rw [ofWhole_esc, ofEscape_noWord hno, ← ih]

theorem lexes_ofWhole (t : Text) : Lexes t (ofWhole t) := by
  fun_induction ofWhole t with
  | case1 => exact .done
  | case2 rest ih =>
      rcases word_or_noWord rest with ⟨s, tail, hs, rfl⟩ | ⟨l, tail, hl, rfl⟩ | ⟨c, tail, rfl⟩ | hno
      · rw [ofEscape_control hs] at ih ⊢
        exact .control hs ih
      · rw [ofEscape_hyperlink hl] at ih ⊢
        have := Lexes.hyperlink hl ih
        simpa [Hyperlink.spell, Hyperlink.opening] using this
      · rw [ofEscape_charset] at ih ⊢
        exact .charset c ih
      · rw [ofEscape_noWord hno] at ih ⊢
        exact .stray hno ih
  | case3 c rest hc ih =>
      have hrun : ∀ d ∈ c :: rest.takeWhile isOrdinary, d ≠ esc := by
        intro d hd
        rcases List.mem_cons.mp hd with rfl | hd
        · exact hc
        · exact isOrdinary_iff.mp (mem_takeWhile hd)
      have := Lexes.text (by simp) hrun
        (avoids_isOrdinary.mp (avoids_dropWhile isOrdinary rest)) ih
      rwa [List.cons_append, List.takeWhile_append_dropWhile] at this

/-- **The grammar determines the tokens of a text, and `ofWhole` computes them.** -/
theorem lexes_iff {t : Text} {ts : List Token} : Lexes t ts ↔ ts = ofWhole t := by
  constructor
  · exact eq_ofWhole_of_lexes
  · rintro rfl
    exact lexes_ofWhole t

/-! ### The reader and the grammar -/

/-- No control sequence is refused. -/
theorem readControl_body {s : ControlSequence} (hs : s.WellFormed) (rest : Text) :
    readControl (s.body ++ rest) = .token s.token rest := by
  simp only [readControl, ControlSequence.read?_body hs]

/-- No hyperlink is refused. -/
theorem readHyperlink_body {l : Hyperlink} (hl : l.WellFormed) (rest : Text) :
    readHyperlink (l.body ++ rest) = .token l.token rest := by
  simp only [readHyperlink, Hyperlink.search_body hl, Hyperlink.search_afterUrl hl,
    Hyperlink.read?_body hl]

/-- Where no word begins, the escape character is given up at once or it waits. -/
theorem readEscape_noWord {rest : Text} (h : NoWord rest) :
    readEscape rest = .token .strayEscape rest ∨ readEscape rest = .unfinished := by
  cases hread : readEscape rest with
  | finished => exact absurd hread (readEscape_ne_finished rest)
  | unfinished => exact Or.inr rfl
  | token t tail =>
      left
      obtain ⟨word, hspells, hword⟩ := spells_of_readEscape hread
      cases hspells with
      | text hne hchars =>
          cases word with
          | nil => exact absurd rfl hne
          | cons c run => exact absurd (List.cons.inj hword).1.symm (hchars c (by simp))
      | control hs => exact absurd hword (h.control _ tail hs)
      | hyperlink hl => exact absurd hword (h.hyperlink _ tail hl)
      | charset c => exact absurd (List.cons.inj hword).2 (h.charset c tail)
      | strayEscape => rw [(List.cons.inj hword).2]; rfl

/-- The token that the reader finds is the token of the grammar. -/
theorem ofWhole_of_token {buffer rest : Text} {t : Token} (h : read buffer = .token t rest) :
    ofWhole buffer = t :: ofWhole rest := by
  rcases read_cases h with ⟨run, hne, hrun, hrest, rfl, rfl⟩ | ⟨tail, rfl, htail⟩
  · exact ofWhole_run hne hrun hrest
  · rw [ofWhole_esc]
    rcases word_or_noWord tail with ⟨s, u, hs, rfl⟩ | ⟨l, u, hl, rfl⟩ | ⟨c, u, rfl⟩ | hno
    · rw [readEscape_control, readControl_body hs, Reading.token.injEq] at htail
      rw [ofEscape_control hs, htail.1, htail.2]
    · rw [readEscape_command, readCommand_hyperlink, readHyperlink_body hl,
        Reading.token.injEq] at htail
      rw [ofEscape_hyperlink hl, htail.1, htail.2]
    · rw [readEscape_charset, Reading.token.injEq] at htail
      rw [ofEscape_charset, htail.1, htail.2]
    · rcases readEscape_noWord hno with hstray | hwaits
      · rw [hstray, Reading.token.injEq] at htail
        rw [ofEscape_noWord hno, htail.1, htail.2]
      · simp [hwaits] at htail

/-- A sequence that waits for more input is no word without it. -/
theorem ofWhole_of_unfinished {tail : Text} (h : read (esc :: tail) = .unfinished) :
    ofWhole (esc :: tail) = .strayEscape :: ofWhole tail := by
  rw [read_esc] at h
  rw [ofWhole_esc]
  rcases word_or_noWord tail with ⟨s, u, hs, rfl⟩ | ⟨l, u, hl, rfl⟩ | ⟨c, u, rfl⟩ | hno
  · simp [readControl_body hs] at h
  · simp [readHyperlink_body hl] at h
  · simp at h
  · rw [ofEscape_noWord hno]

end TerminalMarkup.Token
