/-
The readings of a buffer, one case at a time.

A buffer that begins with ordinary characters yields all of them that stand
together.  A buffer that begins with the escape character is read according to the
character after it, and then the two cases that matter are a control sequence and
a command.  The equations here say that once, so that no other file has to unfold
`Token.read`.

`Spells` is the converse reading: which characters a token stands for.  Whatever is
read stands at the front of the buffer, spelled out, and what is left is the rest
(`spells_of_read`).
-/
import TerminalMarkup.Proofs.Token.Words
import TerminalMarkup.Token.Reader

namespace TerminalMarkup.Token

open Text

/-! ### Equations -/

theorem isOrdinary_iff {c : CodePoint} : isOrdinary c = true ↔ c ≠ esc := by simp [isOrdinary]

theorem avoids_isOrdinary {t : Text} : Avoids isOrdinary t ↔ ∀ c ∈ t.head?, c = esc := by
  simp [Avoids, isOrdinary]

@[simp] theorem read_nil : read [] = .finished := rfl

@[simp] theorem read_esc (rest : Text) : read (esc :: rest) = readEscape rest := by simp [read]

/-- Ordinary characters up to the next escape character, or to the end, are one token. -/
theorem read_run {run rest : Text} (hne : run ≠ []) (hrun : ∀ c ∈ run, isOrdinary c = true)
    (hrest : Avoids isOrdinary rest) : read (run ++ rest) = .token (.text run) rest := by
  cases run with
  | nil => exact absurd rfl hne
  | cons c run =>
      have hc : c ≠ esc := isOrdinary_iff.mp (hrun c (by simp))
      have hrun' : ∀ d ∈ run, isOrdinary d = true := fun d hd => hrun d (by simp [hd])
      rw [List.cons_append, read, if_neg hc, takeWhile_run hrun' hrest, dropWhile_run hrun' hrest]

theorem read_takeWhile {t : Text} (h : ¬Avoids isOrdinary t) :
    read t = .token (.text (t.takeWhile isOrdinary)) (t.dropWhile isOrdinary) := by
  have hne : t.takeWhile isOrdinary ≠ [] := by
    cases t with
    | nil => exact absurd Avoids.nil h
    | cons c rest =>
        cases hc : isOrdinary c with
        | false => exact absurd (Avoids.cons hc rest) h
        | true => simp [hc]
  have := read_run hne (fun c hc => mem_takeWhile hc) (avoids_dropWhile isOrdinary t)
  rwa [List.takeWhile_append_dropWhile] at this

@[simp] theorem readEscape_nil : readEscape [] = .unfinished := rfl

@[simp] theorem readEscape_singleton (c : CodePoint) : readEscape [c] = .unfinished := rfl

@[simp] theorem readEscape_control (body : Text) : readEscape ('[' :: body) = readControl body := by
  cases body with
  | nil => rfl
  | cons c rest => rfl

@[simp] theorem readEscape_command (body : Text) : readEscape (']' :: body) = readCommand body := by
  cases body with
  | nil => rfl
  | cons c rest => rfl

@[simp] theorem readEscape_charset (c : CodePoint) (rest : Text) :
    readEscape ('(' :: c :: rest) = .token (.control []) rest := rfl

theorem readEscape_other {c : CodePoint} (hcontrol : c ≠ '[') (hcommand : c ≠ ']')
    (hcharset : c ≠ '(') (d : CodePoint) (rest : Text) :
    readEscape (c :: d :: rest) = .token .strayEscape (c :: d :: rest) := by
  unfold readEscape
  split <;> simp_all

@[simp] theorem readCommand_nil : readCommand [] = .unfinished := rfl

@[simp] theorem readCommand_singleton (c : CodePoint) : readCommand [c] = .unfinished := rfl

@[simp] theorem readCommand_hyperlink (body : Text) :
    readCommand ('8' :: ';' :: body) = readHyperlink body := rfl

theorem readCommand_other {c d : CodePoint} (h : ¬(c = '8' ∧ d = ';')) (rest : Text) :
    readCommand (c :: d :: rest) = .token .strayEscape (']' :: c :: d :: rest) := by
  unfold readCommand
  split <;> simp_all

/-! ### What a token stands for -/

/-- The characters that a token stands for. -/
inductive Spells : Token → Text → Prop
  | text {chars : Text} (hne : chars ≠ []) (hchars : ∀ c ∈ chars, c ≠ esc) :
      Spells (.text chars) chars
  | control {s : ControlSequence} (hs : s.WellFormed) : Spells s.token s.spell
  | hyperlink {l : Hyperlink} (hl : l.WellFormed) : Spells l.token l.spell
  | charset (c : CodePoint) : Spells (.control []) [esc, '(', c]
  | strayEscape : Spells .strayEscape [esc]

theorem token_ne_text (s : ControlSequence) (chars : Text) : s.token ≠ .text chars := by
  unfold ControlSequence.token
  split <;> simp

/-- A text token stands for its own characters. -/
theorem Spells.of_text {chars word : Text} (h : Spells (.text chars) word) :
    word = chars ∧ chars ≠ [] ∧ ∀ c ∈ chars, c ≠ esc := by
  generalize ht : Token.text chars = t at h
  cases h with
  | text hne hchars =>
      rw [Token.text.injEq] at ht
      subst ht
      exact ⟨rfl, hne, hchars⟩
  | control hs => exact absurd ht.symm (token_ne_text _ chars)
  | hyperlink hl => simp [Hyperlink.token] at ht
  | charset c => simp at ht
  | strayEscape => simp at ht

theorem token_ne_hyperlink (s : ControlSequence) (url label : Text) :
    s.token ≠ .hyperlink url label := by
  unfold ControlSequence.token
  split <;> simp

/-- A hyperlink token stands for a hyperlink of the grammar. -/
theorem Spells.of_hyperlink {url label word : Text} (h : Spells (.hyperlink url label) word) :
    ∃ l : Hyperlink, l.WellFormed ∧ l.url = url ∧ l.label = label ∧ word = l.spell := by
  generalize ht : Token.hyperlink url label = t at h
  cases h with
  | text hne hchars => simp at ht
  | control hs => exact absurd ht.symm (token_ne_hyperlink _ url label)
  | @hyperlink l hl =>
      rw [Hyperlink.token, Token.hyperlink.injEq] at ht
      exact ⟨l, hl, ht.1.symm, ht.2.symm, rfl⟩
  | charset c => simp at ht
  | strayEscape => simp at ht

theorem spells_of_readControl {body rest : Text} {t : Token}
    (h : readControl body = .token t rest) :
    ∃ word, Spells t word ∧ esc :: '[' :: body = word ++ rest := by
  unfold readControl at h
  cases hread : ControlSequence.read? body with
  | some found =>
      obtain ⟨s, tail⟩ := found
      simp only [hread, Reading.token.injEq] at h
      obtain ⟨rfl, rfl⟩ := h
      obtain ⟨hs, rfl⟩ := ControlSequence.read?_eq_some.mp hread
      exact ⟨s.spell, .control hs, rfl⟩
  | none =>
      simp only [hread] at h
      split at h
      · simp only [Reading.token.injEq] at h
        obtain ⟨rfl, rfl⟩ := h
        exact ⟨[esc], .strayEscape, rfl⟩
      · simp at h

theorem spells_of_readHyperlink {body rest : Text} {t : Token}
    (h : readHyperlink body = .token t rest) :
    ∃ word, Spells t word ∧ esc :: ']' :: Hyperlink.opening ++ body = word ++ rest := by
  have hstray :
      Reading.token .strayEscape (.scalar ']' :: Hyperlink.opening ++ body) = .token t rest →
      ∃ word, Spells t word ∧ esc :: .scalar ']' :: Hyperlink.opening ++ body = word ++ rest := by
    intro heq
    rw [Reading.token.injEq] at heq
    obtain ⟨rfl, rfl⟩ := heq
    exact ⟨[esc], .strayEscape, rfl⟩
  unfold readHyperlink at h
  dsimp only at h
  split at h
  · simp at h
  · exact hstray h
  split at h
  · simp at h
  · exact hstray h
  split at h
  · rename_i l tail hread
    rw [Reading.token.injEq] at h
    obtain ⟨rfl, rfl⟩ := h
    obtain ⟨hl, rfl⟩ := Hyperlink.read?_eq_some.mp hread
    exact ⟨l.spell, .hyperlink hl, by simp [Hyperlink.spell]⟩
  · exact hstray h

theorem spells_of_readCommand {body rest : Text} {t : Token}
    (h : readCommand body = .token t rest) :
    ∃ word, Spells t word ∧ esc :: ']' :: body = word ++ rest := by
  match body with
  | [] => simp at h
  | [_] => simp at h
  | c :: d :: tail =>
      by_cases hopening : c = '8' ∧ d = ';'
      · obtain ⟨rfl, rfl⟩ := hopening
        exact spells_of_readHyperlink h
      · rw [readCommand_other hopening, Reading.token.injEq] at h
        obtain ⟨rfl, rfl⟩ := h
        exact ⟨[esc], .strayEscape, rfl⟩

theorem spells_of_readEscape {buffer rest : Text} {t : Token}
    (h : readEscape buffer = .token t rest) :
    ∃ word, Spells t word ∧ esc :: buffer = word ++ rest := by
  match buffer with
  | [] => simp at h
  | [_] => simp at h
  | c :: d :: tail =>
      by_cases hcontrol : c = '['
      · subst hcontrol
        exact spells_of_readControl (readEscape_control _ ▸ h)
      by_cases hcommand : c = ']'
      · subst hcommand
        exact spells_of_readCommand (readEscape_command _ ▸ h)
      by_cases hcharset : c = '('
      · subst hcharset
        rw [readEscape_charset, Reading.token.injEq] at h
        obtain ⟨rfl, rfl⟩ := h
        exact ⟨_, .charset d, rfl⟩
      · rw [readEscape_other hcontrol hcommand hcharset, Reading.token.injEq] at h
        obtain ⟨rfl, rfl⟩ := h
        exact ⟨[esc], .strayEscape, rfl⟩

/-- A token other than text begins with the escape character; text goes on as long as it can. -/
theorem read_cases {buffer rest : Text} {t : Token} (h : read buffer = .token t rest) :
    (∃ run, run ≠ [] ∧ (∀ c ∈ run, isOrdinary c = true) ∧ Avoids isOrdinary rest ∧
      buffer = run ++ rest ∧ t = .text run) ∨
    ∃ tail, buffer = esc :: tail ∧ readEscape tail = .token t rest := by
  cases buffer with
  | nil => simp at h
  | cons c tail =>
      by_cases hc : c = esc
      · subst hc
        exact Or.inr ⟨tail, rfl, read_esc tail ▸ h⟩
      · left
        rw [read, if_neg hc, Reading.token.injEq] at h
        obtain ⟨rfl, rfl⟩ := h
        refine ⟨_, by simp, ?_, avoids_dropWhile _ _, by simp, rfl⟩
        intro d hd
        rcases List.mem_cons.mp hd with rfl | hd
        · exact isOrdinary_iff.mpr hc
        · exact mem_takeWhile hd

/-- **A token that is read stands at the front of the buffer, spelled out.** -/
theorem spells_of_read {buffer rest : Text} {t : Token} (h : read buffer = .token t rest) :
    ∃ word, Spells t word ∧ buffer = word ++ rest := by
  rcases read_cases h with ⟨run, hne, hrun, -, rfl, rfl⟩ | ⟨tail, rfl, htail⟩
  · exact ⟨run, .text hne fun c hc => isOrdinary_iff.mp (hrun c hc), rfl⟩
  · exact spells_of_readEscape htail

/-- Nothing is left waiting but an escape character and what may belong to it. -/
theorem eq_esc_cons_of_unfinished {buffer : Text} (h : read buffer = .unfinished) :
    ∃ tail, buffer = esc :: tail := by
  cases buffer with
  | nil => simp at h
  | cons c tail =>
      by_cases hc : c = esc
      · exact ⟨tail, by rw [hc]⟩
      · rw [read, if_neg hc] at h
        simp at h

theorem readEscape_ne_finished (buffer : Text) : readEscape buffer ≠ .finished := by
  unfold readEscape readCommand readHyperlink readControl
  dsimp only
  repeat' split
  all_goals simp

/-- Only the empty buffer is finished. -/
theorem read_eq_finished {buffer : Text} : read buffer = .finished ↔ buffer = [] := by
  constructor
  · intro h
    cases buffer with
    | nil => rfl
    | cons c tail =>
        rw [read] at h
        split at h
        · exact absurd h (readEscape_ne_finished tail)
        · simp at h
  · rintro rfl
    rfl

/-! ### Reading on

A buffer is read until nothing more can be, and at the end of a stream an unfinished
sequence gives up its escape character and reading goes on after it.  Both recursions
go down with the length of the buffer.  The two principles below say so once, with
the cases named.
-/

/-- There is no token to be read. -/
def Stuck (buffer : Text) : Prop := ∀ t rest, read buffer ≠ .token t rest

theorem token_or_stuck (buffer : Text) :
    (∃ t rest, read buffer = .token t rest) ∨ Stuck buffer := by
  cases h : read buffer with
  | token t rest => exact Or.inl ⟨t, rest, rfl⟩
  | finished => exact Or.inr fun t rest => by simp [h]
  | unfinished => exact Or.inr fun t rest => by simp [h]

/-- Induction along the tokens of a buffer. -/
theorem read_induction {motive : Text → Prop} (buffer : Text)
    (stuck : ∀ buffer, Stuck buffer → motive buffer)
    (token : ∀ buffer t rest, read buffer = .token t rest → motive rest → motive buffer) :
    motive buffer := by
  induction hn : buffer.length using Nat.strongRecOn generalizing buffer with
  | ind n ih =>
      subst hn
      rcases token_or_stuck buffer with ⟨t, rest, h⟩ | h
      · exact token buffer t rest h (ih rest.length (length_lt_of_read h) rest rfl)
      · exact stuck buffer h

/-- Induction along the tokens of a buffer that nothing follows. -/
theorem end_induction {motive : Text → Prop} (buffer : Text) (nil : motive [])
    (token : ∀ buffer t rest, read buffer = .token t rest → motive rest → motive buffer)
    (unfinished : ∀ tail, read (esc :: tail) = .unfinished → motive tail → motive (esc :: tail)) :
    motive buffer := by
  induction hn : buffer.length using Nat.strongRecOn generalizing buffer with
  | ind n ih =>
      subst hn
      cases h : read buffer with
      | token t rest => exact token buffer t rest h (ih rest.length (length_lt_of_read h) rest rfl)
      | finished => exact read_eq_finished.mp h ▸ nil
      | unfinished =>
          obtain ⟨tail, rfl⟩ := eq_esc_cons_of_unfinished h
          exact unfinished tail h (ih tail.length (by simp) tail rfl)

/-! ### Reading all there is -/

theorem readAll_of_token {buffer rest : Text} {t : Token} (h : read buffer = .token t rest) :
    readAll buffer = (⟨t, ahead buffer⟩ :: (readAll rest).1, (readAll rest).2) := by
  rw [readAll, readAllOnto]
  split
  · rename_i t' rest' h'
    rw [h, Reading.token.injEq] at h'
    obtain ⟨rfl, rfl⟩ := h'
    rw [readAllOnto_eq]
    rfl
  · rename_i hnot
    exact absurd h (hnot t rest)

theorem readAll_of_stuck {buffer : Text} (h : Stuck buffer) : readAll buffer = ([], buffer) := by
  rw [readAll, readAllOnto]
  split
  · rename_i t rest h'
    exact absurd h' (h t rest)
  · rfl

/-- What is left by reading all there is yields nothing more. -/
theorem stuck_readAll (buffer : Text) : Stuck (readAll buffer).2 := by
  induction buffer using read_induction with
  | stuck buffer h =>
      rw [readAll_of_stuck h]
      exact h
  | token buffer t rest h ih =>
      rw [readAll_of_token h]
      exact ih

end TerminalMarkup.Token
