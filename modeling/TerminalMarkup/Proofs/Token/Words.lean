/-
What the readers of control sequences and hyperlinks accept.

Both readers take one part of a word at a time: the longest run of a class of
characters, one optional character, or a fixed text.  Nothing is ever given back,
and nothing has to be: the character that follows a part is not of the class of
the part, so there is only one way to cut a word into its parts.

`ControlSequence.read?_eq_some` and `Hyperlink.read?_eq_some` say what comes of
it.  A reader finds a word and the text after it exactly when the word is well
formed and the text is the word and what follows.  Everything else that is proved
about reading uses words and no longer looks into the readers.
-/
import TerminalMarkup.Token.Hyperlink

namespace TerminalMarkup

namespace Text

variable {p : CodePoint → Bool}

/-! ### Runs of a class -/

/-- The text does not begin with a character of the class. -/
def Avoids (p : CodePoint → Bool) (t : Text) : Prop := ∀ c ∈ t.head?, p c = false

theorem Avoids.nil : Avoids p [] := by simp [Avoids]

theorem Avoids.cons {c : CodePoint} (h : p c = false) (t : Text) : Avoids p (c :: t) := by
  simpa [Avoids] using h

theorem Avoids.append {a b : Text} (ha : ∀ c ∈ a, p c = false) (hb : Avoids p b) :
    Avoids p (a ++ b) := by
  cases a with
  | nil => exact hb
  | cons c rest => exact Avoids.cons (ha c (by simp)) _

theorem avoids_dropWhile (p : CodePoint → Bool) (t : Text) : Avoids p (t.dropWhile p) := by
  intro c hc
  have := List.head?_dropWhile_not p t
  rw [Option.mem_def.mp hc] at this
  simpa using this

theorem takeWhile_run {run rest : Text} (hrun : ∀ c ∈ run, p c = true) (hrest : Avoids p rest) :
    (run ++ rest).takeWhile p = run := by
  rw [List.takeWhile_append_of_pos hrun]
  cases rest with
  | nil => simp
  | cons c rest => simp [hrest c (by simp)]

theorem dropWhile_run {run rest : Text} (hrun : ∀ c ∈ run, p c = true) (hrest : Avoids p rest) :
    (run ++ rest).dropWhile p = rest := by
  rw [List.dropWhile_append_of_pos hrun]
  cases rest with
  | nil => rfl
  | cons c rest => simp [hrest c (by simp)]

theorem mem_takeWhile {t : Text} {c : CodePoint} (h : c ∈ t.takeWhile p) : p c = true := by
  have := List.all_takeWhile (l := t) (p := p)
  rw [List.all_eq_true] at this
  exact this c h

theorem takeOne_word {o : Option CodePoint} {rest : Text} (ho : ∀ c ∈ o, p c = true)
    (hrest : o = none → Avoids p rest) : takeOne p (o.toList ++ rest) = (o, rest) := by
  cases o with
  | some c => simp [takeOne, ho c rfl]
  | none =>
      cases rest with
      | nil => rfl
      | cons c rest => simp [takeOne, hrest rfl c (by simp)]

theorem mem_takeOne {t : Text} {c : CodePoint} (h : c ∈ (takeOne p t).1) : p c = true := by
  cases t with
  | nil => simp [takeOne] at h
  | cons d rest =>
      by_cases hd : p d = true
      · simp only [takeOne, if_pos hd, Option.mem_def, Option.some.injEq] at h
        exact h ▸ hd
      · simp [takeOne, hd] at h

end Text

open Text

namespace ControlSequence

/-! ### The classes do not overlap -/

theorem isParam_iff {c : CodePoint} :
    isParam c = true ↔ (0x30 ≤ c.toNat ∧ c.toNat ≤ 0x39) ∨ c.toNat = 0x3b := by
  have hsemi : c = ';' ↔ c.toNat = 0x3b := CodePoint.toNat_inj.symm
  simp [isParam, isAsciiDigit, hsemi]

theorem isMark_eq_false {c : CodePoint}
    (h : isParam c = true ∨ isIntermediate c = true ∨ isFinal c = true) : isMark c = false := by
  rw [isParam_iff] at h
  simp only [isIntermediate, isFinal, isMark, Bool.and_eq_true, Bool.and_eq_false_iff,
    decide_eq_true_eq, decide_eq_false_iff_not] at h ⊢
  omega

theorem isParam_eq_false {c : CodePoint} (h : isIntermediate c = true ∨ isFinal c = true) :
    isParam c = false := by
  rw [← Bool.not_eq_true, isParam_iff]
  simp only [isIntermediate, isFinal, Bool.and_eq_true, decide_eq_true_eq] at h
  omega

theorem isIntermediate_eq_false {c : CodePoint} (h : isFinal c = true) :
    isIntermediate c = false := by
  simp only [isFinal, isIntermediate, Bool.and_eq_true, Bool.and_eq_false_iff,
    decide_eq_true_eq, decide_eq_false_iff_not] at h ⊢
  omega

/-! ### Control sequences -/

/-- The body of a control sequence is graphic and has no colon. -/
theorem WellFormed.of_mem_body {s : ControlSequence} (h : s.WellFormed) {c : CodePoint}
    (hc : c ∈ s.body) : isGraphic c = true ∧ c ≠ ':' := by
  have hclass : isMark c = true ∨ isParam c = true ∨ isIntermediate c = true ∨
      isFinal c = true := by
    obtain ⟨hmark, hparams, hinter, hfinal⟩ := h
    simp only [body, List.mem_append, List.mem_singleton, Option.mem_toList] at hc
    rcases hc with ((hc | hc) | hc) | rfl
    · exact Or.inl (hmark c hc)
    · exact Or.inr (Or.inl (hparams c hc))
    · exact Or.inr (Or.inr (Or.inl (hinter c hc)))
    · exact Or.inr (Or.inr (Or.inr hfinal))
  have hcolon : c = ':' ↔ c.toNat = 0x3a := CodePoint.toNat_inj.symm
  rw [isParam_iff] at hclass
  simp only [isMark, isIntermediate, isFinal, isGraphic, Bool.and_eq_true, decide_eq_true_eq,
    ne_eq, hcolon] at hclass ⊢
  omega

theorem read?_body {s : ControlSequence} (h : s.WellFormed) (rest : Text) :
    read? (s.body ++ rest) = some (s, rest) := by
  obtain ⟨hmark, hparams, hinter, hfinal⟩ := h
  -- Each part is followed by parts of other classes only.
  have hstop : Avoids isIntermediate (s.final :: rest) :=
    .cons (isIntermediate_eq_false hfinal) rest
  have hparamsStop : Avoids isParam (s.intermediate.toList ++ s.final :: rest) :=
    .append (fun c hc => isParam_eq_false (Or.inl (hinter c (by simpa using hc))))
      (.cons (isParam_eq_false (Or.inr hfinal)) rest)
  have hmarkStop : Avoids isMark (s.params ++ (s.intermediate.toList ++ s.final :: rest)) := by
    refine .append (fun c hc => isMark_eq_false (Or.inl (hparams c hc))) (.append ?_ ?_)
    · exact fun c hc => isMark_eq_false (Or.inr (Or.inl (hinter c (by simpa using hc))))
    · exact .cons (isMark_eq_false (Or.inr (Or.inr hfinal))) rest
  have hbody : s.body ++ rest
      = s.mark.toList ++ (s.params ++ (s.intermediate.toList ++ s.final :: rest)) := by
    simp [body]
  unfold read?
  rw [hbody, takeOne_word hmark fun _ => hmarkStop]
  simp only [takeWhile_run hparams hparamsStop, dropWhile_run hparams hparamsStop,
    takeOne_word hinter fun _ => hstop, hfinal, if_true]

theorem wellFormed_of_read? {t rest : Text} {s : ControlSequence} (h : read? t = some (s, rest)) :
    s.WellFormed := by
  unfold read? at h
  dsimp only at h
  split at h
  · simp at h
  · split at h
    · rename_i hfinal
      simp only [Option.some.injEq, Prod.mk.injEq] at h
      obtain ⟨rfl, -⟩ := h
      exact ⟨fun c hc => mem_takeOne hc, fun c hc => mem_takeWhile hc,
        fun c hc => mem_takeOne hc, hfinal⟩
    · simp at h

/-- **A control sequence is found exactly where one is spelled out.** -/
theorem read?_eq_some {t rest : Text} {s : ControlSequence} :
    read? t = some (s, rest) ↔ s.WellFormed ∧ t = s.body ++ rest := by
  constructor
  · intro h
    exact ⟨wellFormed_of_read? h, eq_append_of_read? h⟩
  · rintro ⟨hs, rfl⟩
    exact read?_body hs rest

end ControlSequence

/-! ### Terminators -/

theorem Terminator.read?_eq_some {t rest : Text} {e : Terminator} :
    Terminator.read? t = some (e, rest) ↔ t = e.spell ++ rest := by
  constructor
  · exact Terminator.eq_append_of_read?
  · rintro rfl
    cases e with
    | bell => rfl
    | backslash => simp [Terminator.spell, Terminator.read?, esc, bel]

/-- No terminator begins with a graphic character. -/
theorem Terminator.avoids {p : CodePoint → Bool}
    (hp : ∀ c, p c = true → ControlSequence.isGraphic c = true) (e : Terminator) (t : Text) :
    Avoids p (e.spell ++ t) := by
  have hnot : ∀ c, ControlSequence.isGraphic c = false → p c = false := by
    intro c hc
    rw [← Bool.not_eq_true] at hc ⊢
    exact fun h => hc (hp c h)
  cases e with
  | bell => exact .cons (hnot _ (by decide)) _
  | backslash => exact .cons (hnot _ (by decide)) _

namespace Hyperlink

/-! ### Hyperlinks -/

theorem isGraphic_of_isParam {c : CodePoint} (h : isParam c = true) :
    ControlSequence.isGraphic c = true := by
  simp only [isParam, Bool.and_eq_true] at h
  exact h.1

theorem isGraphic_of_isUrl {c : CodePoint} (h : isUrl c = true) :
    ControlSequence.isGraphic c = true := by
  simp only [isUrl, Bool.and_eq_true] at h
  exact h.1

/-- The second half of a hyperlink, read after its first terminator. -/
theorem readLabel?_eq_some {t label rest : Text} {e : Terminator} :
    readLabel? t = some (label, e, rest) ↔
      (∀ c ∈ label, ControlSequence.isGraphic c = true) ∧ label ≠ [] ∧
        t = label ++ closing ++ e.spell ++ rest := by
  constructor
  · intro h
    have hlabel : (∀ c ∈ label, ControlSequence.isGraphic c = true) ∧ label ≠ [] := by
      unfold readLabel? at h
      dsimp only at h
      split at h
      · simp at h
      rename_i hne
      split at h
      · simp at h
      split at h
      · simp at h
      simp only [Option.some.injEq, Prod.mk.injEq] at h
      obtain ⟨rfl, -, -⟩ := h
      exact ⟨fun c hc => mem_takeWhile hc, hne⟩
    exact ⟨hlabel.1, hlabel.2, eq_append_of_readLabel? h⟩
  · rintro ⟨hgraphic, hne, rfl⟩
    have hstop : Avoids ControlSequence.isGraphic (closing ++ (e.spell ++ rest)) :=
      .cons (by decide) _
    have hafter : after? closing (closing ++ (e.spell ++ rest)) = some (e.spell ++ rest) :=
      after?_eq_some.mpr rfl
    have hend : Terminator.read? (e.spell ++ rest) = some (e, rest) :=
      Terminator.read?_eq_some.mpr rfl
    simp only [readLabel?, List.append_assoc, takeWhile_run hgraphic hstop,
      dropWhile_run hgraphic hstop, if_neg hne, hafter, hend]

theorem wellFormed_of_read? {t rest : Text} {l : Hyperlink} (h : read? t = some (l, rest)) :
    l.WellFormed := by
  unfold read? at h
  dsimp only at h
  split at h
  · simp at h
  split at h
  · simp at h
  rename_i hurl
  split at h
  · simp at h
  split at h
  · simp at h
  rename_i hlabel
  simp only [Option.some.injEq, Prod.mk.injEq] at h
  obtain ⟨rfl, -⟩ := h
  obtain ⟨hgraphic, hne, -⟩ := readLabel?_eq_some.mp hlabel
  rw [not_or] at hurl
  exact ⟨fun c hc => mem_takeWhile hc, fun c hc => mem_takeWhile hc, hurl.1,
    Nat.not_lt.mp hurl.2, hgraphic, hne⟩

theorem read?_body {l : Hyperlink} (h : l.WellFormed) (rest : Text) :
    read? (l.body ++ rest) = some (l, rest) := by
  obtain ⟨hparams, hurl, hurlNe, hurlLength, hgraphic, hlabelNe⟩ := h
  have hlabel : readLabel? (l.label ++ closing ++ l.labelEnd.spell ++ rest)
      = some (l.label, l.labelEnd, rest) := readLabel?_eq_some.mpr ⟨hgraphic, hlabelNe, rfl⟩
  have hparamsStop : ∀ t, Avoids isParam (';' :: t) := fun t => .cons (by decide) t
  have hurlStop : ∀ t, Avoids isUrl (l.urlEnd.spell ++ t) :=
    l.urlEnd.avoids fun _ => isGraphic_of_isUrl
  have hend : ∀ t, Terminator.read? (l.urlEnd.spell ++ t) = some (l.urlEnd, t) :=
    fun t => Terminator.read?_eq_some.mpr rfl
  have hbody : l.body ++ rest = l.params ++ .scalar ';' :: (l.url ++ (l.urlEnd.spell ++
      (l.label ++ closing ++ l.labelEnd.spell ++ rest))) := by simp [body]
  have hsemi : ∀ t, after? [';'] (';' :: t) = some t := fun t => after?_eq_some.mpr rfl
  have hfits : ¬(l.url = [] ∨ maxUrlLength < l.url.length) :=
    not_or.mpr ⟨hurlNe, Nat.not_lt.mpr hurlLength⟩
  unfold read?
  rw [hbody]
  simp only [takeWhile_run hparams (hparamsStop _), dropWhile_run hparams (hparamsStop _), hsemi,
    takeWhile_run hurl (hurlStop _), dropWhile_run hurl (hurlStop _), if_neg hfits, hend, hlabel]

/-- **A hyperlink is found exactly where one is spelled out.** -/
theorem read?_eq_some {t rest : Text} {l : Hyperlink} :
    read? t = some (l, rest) ↔ l.WellFormed ∧ t = l.body ++ rest := by
  constructor
  · intro h
    exact ⟨wellFormed_of_read? h, eq_append_of_read? h⟩
  · rintro ⟨hl, rfl⟩
    exact read?_body hl rest

end Hyperlink

end TerminalMarkup
