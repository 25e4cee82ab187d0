/-
A buffer that begins with `ESC ]`.

The reader looks for two terminators before it consults the grammar, and both searches stop
at control characters.  Neither can do a hyperlink any harm: its parts have no control
characters, it has exactly two terminators, and the second one is its end.  So a hyperlink is
read as soon as it is there, and what comes after it plays no part.

What the searches do decide is how long the reader waits when there is no hyperlink.  It
waits while the buffer is `IsOpen`: fewer than two terminators and no control character in
it, the bell and the escape character not counted.  Why two searches in a row find
this out is `search_of_terminator`: wherever a terminator stands, the first one found ends no
later, so that a second one is still ahead.
-/
import TerminalMarkup.Proofs.Token.Grammar
import TerminalMarkup.Proofs.Token.Schedule

namespace TerminalMarkup

open Text

namespace Terminator

/-! ### Texts without two terminators -/

/-- Two terminators stand in the text, one after the other. -/
def HasTwo (t : Text) : Prop :=
  ∃ (e e' : Terminator) (before between after : Text),
    t = before ++ e.spell ++ between ++ e'.spell ++ after

/-- The text ends before a second terminator comes, and before any control character but the bell
and the escape character. -/
structure IsOpen (t : Text) : Prop where
  single : ¬HasTwo t
  plain : ∀ c ∈ t, ¬(c.toNat ≤ 0x06 ∨ (0x08 ≤ c.toNat ∧ c.toNat ≤ 0x1a) ∨
    (0x1c ≤ c.toNat ∧ c.toNat ≤ 0x1f))

theorem isBarred_iff {c : CodePoint} :
    isBarred c = true ↔ c.toNat ≤ 0x06 ∨ (0x08 ≤ c.toNat ∧ c.toNat ≤ 0x1a) ∨
      (0x1c ≤ c.toNat ∧ c.toNat ≤ 0x1f) := by
  have hbel : c = bel ↔ c.toNat = 0x07 := CodePoint.toNat_inj.symm
  have hesc : c = esc ↔ c.toNat = 0x1b := CodePoint.toNat_inj.symm
  simp only [isBarred, ControlSequence.isControl, Bool.and_eq_true, decide_eq_true_eq, bne_iff_ne,
    ne_eq, hbel, hesc]
  omega

theorem not_barred_of_mem_spell {e : Terminator} {c : CodePoint} (h : c ∈ e.spell) :
    isBarred c = false := by
  cases e with
  | bell =>
      rw [List.mem_singleton.mp h]
      decide
  | backslash =>
      simp only [spell, List.mem_cons, List.not_mem_nil, or_false] at h
      rcases h with rfl | rfl
      · decide
      · decide

/-! ### What a search finds -/

theorem search_cons {c : CodePoint} {t : Text} (h : read? (c :: t) = none)
    (hc : isBarred c = false) : search (c :: t) = search t := by
  simp [search, h, hc]

/-- A search ends at its first character, with a terminator or barred, or goes on after it. -/
theorem search_cases (c : CodePoint) (t : Text) :
    (∃ e rest, read? (c :: t) = some (e, rest) ∧ search (c :: t) = .found rest) ∨
    (isBarred c = true ∧ search (c :: t) = .barred) ∨
    (isBarred c = false ∧ search (c :: t) = search t) := by
  cases hread : read? (c :: t) with
  | some found =>
      obtain ⟨e, rest⟩ := found
      exact Or.inl ⟨e, rest, rfl, by rw [search, hread]⟩
  | none =>
      cases hc : isBarred c with
      | true => exact Or.inr (Or.inl ⟨rfl, by simp only [search, hread, hc, if_true]⟩)
      | false => exact Or.inr (Or.inr ⟨rfl, search_cons hread hc⟩)

/-- A terminator at the front of a text that has another one later does not reach into it. -/
theorem suffix_of_read? {c : CodePoint} {before after rest : Text} {e e' : Terminator}
    (h : read? (c :: (before ++ e.spell ++ after)) = some (e', rest)) :
    e.spell ++ after <:+ rest := by
  have hspell := eq_append_of_read? h
  cases e' with
  | bell =>
      obtain ⟨-, hrest⟩ := List.cons.inj hspell
      rw [show rest = before ++ e.spell ++ after from hrest.symm, List.append_assoc]
      exact List.suffix_append _ _
  | backslash =>
      obtain ⟨-, htail⟩ := List.cons.inj hspell
      cases before with
      | nil =>
          -- The backslash would have to be the beginning of the other one.
          exfalso
          cases e with
          | bell => exact absurd (List.cons.inj htail).1 (by decide)
          | backslash => exact absurd (List.cons.inj htail).1 (by decide)
      | cons d before =>
          obtain ⟨-, hrest⟩ := List.cons.inj htail
          rw [show rest = before ++ e.spell ++ after from hrest.symm, List.append_assoc]
          exact List.suffix_append _ _

/-- **A search does not miss a terminator.**  It is barred before, or it finds that one or one
that ends earlier. -/
theorem search_of_terminator (before : Text) (e : Terminator) (after : Text) :
    search (before ++ e.spell ++ after) = .barred ∨
      ∃ rest, search (before ++ e.spell ++ after) = .found rest ∧ after <:+ rest := by
  induction before with
  | nil => exact Or.inr ⟨after, search_spell e after, List.suffix_refl after⟩
  | cons c before ih =>
      rcases search_cases c (before ++ e.spell ++ after) with
        ⟨e', rest, hread, hfound⟩ | ⟨-, hbarred⟩ | ⟨-, hon⟩
      · have hsuffix : e.spell ++ after <:+ rest := suffix_of_read? hread
        exact Or.inr ⟨rest, hfound, (List.suffix_append _ _).trans hsuffix⟩
      · exact Or.inl hbarred
      · rw [List.cons_append, List.cons_append, hon]
        exact ih

/-- What a search passes over is free of control characters. -/
theorem exists_of_search_found {t rest : Text} (h : search t = .found rest) :
    ∃ before e, t = before ++ spell e ++ rest ∧ ∀ c ∈ before, isBarred c = false := by
  induction t with
  | nil => cases h
  | cons c t ih =>
      rcases search_cases c t with ⟨e, rest', hread, hfound⟩ | ⟨-, hbarred⟩ | ⟨hc, hon⟩
      · rw [hfound, Search.found.injEq] at h
        subst h
        exact ⟨[], e, eq_append_of_read? hread, by simp⟩
      · rw [hbarred] at h
        cases h
      · rw [hon] at h
        obtain ⟨before, e, rfl, hbefore⟩ := ih h
        exact ⟨c :: before, e, rfl, List.forall_mem_cons.mpr ⟨hc, hbefore⟩⟩

theorem exists_of_search_barred {t : Text} (h : search t = .barred) :
    ∃ c ∈ t, isBarred c = true := by
  induction t with
  | nil => cases h
  | cons c t ih =>
      rcases search_cases c t with ⟨e, rest, -, hfound⟩ | ⟨hc, -⟩ | ⟨-, hon⟩
      · rw [hfound] at h
        cases h
      · exact ⟨c, List.mem_cons_self, hc⟩
      · rw [hon] at h
        obtain ⟨d, hd, hbarred⟩ := ih h
        exact ⟨d, List.mem_cons_of_mem c hd, hbarred⟩

theorem not_barred_of_search_missing {t : Text} (h : search t = .missing) :
    ∀ c ∈ t, isBarred c = false := by
  induction t with
  | nil => exact fun c hc => absurd hc List.not_mem_nil
  | cons c t ih =>
      rcases search_cases c t with ⟨e, rest, -, hfound⟩ | ⟨-, hbarred⟩ | ⟨hc, hon⟩
      · rw [hfound] at h
        cases h
      · rw [hbarred] at h
        cases h
      · rw [hon] at h
        exact List.forall_mem_cons.mpr ⟨hc, ih h⟩

/-! ### Two searches in a row -/

/-- Two searches in a row run out of text, the first or the second. -/
def RunsOut (t : Text) : Prop :=
  search t = .missing ∨ ∃ rest, search t = .found rest ∧ search rest = .missing

theorem not_hasTwo_of_runsOut {t : Text} (h : RunsOut t) : ¬HasTwo t := by
  rintro ⟨e, e', before, between, after, rfl⟩
  -- The first search leaves the second terminator in what the second search goes through.
  have hfirst := search_of_terminator before e (between ++ (e'.spell ++ after))
  simp only [← List.append_assoc] at hfirst
  rcases hfirst with hbarred | ⟨rest, hfound, front, rfl⟩
  · rcases h with hmissing | ⟨rest, hfound, -⟩
    · rw [hbarred] at hmissing
      cases hmissing
    · rw [hbarred] at hfound
      cases hfound
  · rcases h with hmissing | ⟨rest', hfound', hmissing⟩
    · rw [hfound] at hmissing
      cases hmissing
    · rw [hfound, Search.found.injEq] at hfound'
      subst hfound'
      have hsecond := search_of_terminator (front ++ between) e' after
      simp only [← List.append_assoc] at hmissing
      rcases hsecond with hbarred | ⟨rest, hfound, -⟩
      · rw [hbarred] at hmissing
        cases hmissing
      · rw [hfound] at hmissing
        cases hmissing

theorem not_barred_of_runsOut {t : Text} (h : RunsOut t) : ∀ c ∈ t, isBarred c = false := by
  rcases h with hmissing | ⟨rest, hfound, hmissing⟩
  · exact not_barred_of_search_missing hmissing
  · obtain ⟨before, e, rfl, hbefore⟩ := exists_of_search_found hfound
    intro c hc
    simp only [List.mem_append] at hc
    rcases hc with (hc | hc) | hc
    · exact hbefore c hc
    · exact not_barred_of_mem_spell hc
    · exact not_barred_of_search_missing hmissing c hc

/-- **Two searches in a row run out of text exactly when the text is open.** -/
theorem runsOut_iff {t : Text} : RunsOut t ↔ IsOpen t := by
  constructor
  · intro h
    refine ⟨not_hasTwo_of_runsOut h, fun c hc hrange => ?_⟩
    rw [← isBarred_iff, not_barred_of_runsOut h c hc] at hrange
    cases hrange
  · intro h
    have hfree : ∀ c ∈ t, ¬isBarred c = true := fun c hc hbarred =>
      h.plain c hc (isBarred_iff.mp hbarred)
    cases hfirst : search t with
    | missing => exact Or.inl hfirst
    | barred =>
        obtain ⟨c, hc, hbarred⟩ := exists_of_search_barred hfirst
        exact absurd hbarred (hfree c hc)
    | found rest =>
        obtain ⟨before, e, rfl, -⟩ := exists_of_search_found hfirst
        refine Or.inr ⟨rest, hfirst, ?_⟩
        cases hsecond : search rest with
        | missing => rfl
        | barred =>
            obtain ⟨c, hc, hbarred⟩ := exists_of_search_barred hsecond
            exact absurd hbarred (hfree c (by simp [hc]))
        | found rest' =>
            obtain ⟨between, e', rfl, -⟩ := exists_of_search_found hsecond
            exact absurd ⟨e, e', before, between, rest', by simp⟩ h.single

/-- What introduces a hyperlink has no terminator and no control character to stop at. -/
theorem search_opening (body : Text) :
    search (esc :: ']' :: Hyperlink.opening ++ body) = search body := by
  have hread : read? (esc :: (.scalar ']' :: Hyperlink.opening ++ body)) = none := by
    simp [read?, esc, bel]
  have hgraphic : ∀ c ∈ .scalar ']' :: Hyperlink.opening, ControlSequence.isGraphic c = true :=
    List.all_eq_true.mp rfl
  calc search (esc :: ']' :: Hyperlink.opening ++ body)
      = search (.scalar ']' :: Hyperlink.opening ++ body) := search_cons hread (by decide)
    _ = search body := search_run hgraphic body

end Terminator

/-! ### Hyperlinks -/

namespace Hyperlink

/-- A text begins with one hyperlink at most. -/
theorem eq_of_body_append {l l' : Hyperlink} {rest rest' : Text} (hl : l.WellFormed)
    (hl' : l'.WellFormed) (h : l.body ++ rest = l'.body ++ rest') : l = l' ∧ rest = rest' := by
  have hread := read?_body hl rest
  rw [h, read?_body hl', Option.some.injEq, Prod.mk.injEq] at hread
  exact ⟨hread.1.symm, hread.2.symm⟩

theorem read?_eq_none_iff {t : Text} :
    read? t = none ↔ ∀ (l : Hyperlink) (rest : Text), l.WellFormed → t ≠ l.body ++ rest := by
  constructor
  · rintro h l rest hl rfl
    rw [read?_body hl] at h
    cases h
  · intro h
    cases hread : read? t with
    | none => rfl
    | some found =>
        obtain ⟨l, rest⟩ := found
        obtain ⟨hl, ht⟩ := read?_eq_some.mp hread
        exact absurd ht (h l rest hl)

end Hyperlink

namespace Token

open Terminator

/-- Without a hyperlink the reader waits while two searches in a row run out of text, and otherwise
gives up the escape character. -/
theorem readHyperlink_of_none {body : Text} (h : Hyperlink.read? body = none) :
    (RunsOut body → readHyperlink body = .unfinished) ∧
      (¬RunsOut body →
        readHyperlink body = .token .strayEscape (.scalar ']' :: Hyperlink.opening ++ body)) := by
  unfold readHyperlink RunsOut
  cases search body with
  | missing => simp
  | barred => simp
  | found label =>
      simp only [reduceCtorEq, Search.found.injEq, exists_eq_left', false_or, h]
      cases search label with
      | missing => simp
      | barred => simp
      | found rest => simp

end Token

namespace Buffer

open Token Terminator

/-! ### The three answers -/

/-- The buffer is too short to tell, or it begins as a hyperlink does and is open. -/
def MayComplete (buffer : Text) : Prop :=
  buffer.length = 3 ∨ ((buffer.drop 2).take 2 = Hyperlink.opening ∧ IsOpen buffer)

theorem read_command (body : Text) : read (esc :: ']' :: body) = readCommand body := by
  rw [read_esc, readEscape_command]

theorem read_spell {l : Hyperlink} (hl : l.WellFormed) (rest : Text) :
    read (l.spell ++ rest) = .token (.hyperlink l.url l.label) rest := by
  have hspell : l.spell ++ rest = esc :: ']' :: '8' :: ';' :: (l.body ++ rest) := by
    simp [Hyperlink.spell, Hyperlink.opening]
  rw [hspell, read_command, readCommand_hyperlink, readHyperlink_body hl]
  rfl

/-- A hyperlink is read only where one is spelled out. -/
theorem read_eq_hyperlink_iff {buffer url label tail : Text} :
    read buffer = .token (.hyperlink url label) tail ↔
      ∃ l : Hyperlink, l.WellFormed ∧ l.url = url ∧ l.label = label ∧
        buffer = l.spell ++ tail := by
  constructor
  · intro h
    obtain ⟨word, hspells, hbuffer⟩ := spells_of_read h
    obtain ⟨l, hl, hurl, hlabel, rfl⟩ := hspells.of_hyperlink
    exact ⟨l, hl, hurl, hlabel, hbuffer⟩
  · rintro ⟨l, hl, rfl, rfl, rfl⟩
    exact read_spell hl tail

/-- Without a hyperlink at its front, a buffer waits or gives up its escape character. -/
theorem readCommand_of_noWord {c : CodePoint} {rest : Text}
    (h : ∀ (l : Hyperlink) (tail : Text), l.WellFormed →
      esc :: ']' :: c :: rest ≠ l.spell ++ tail) :
    (MayComplete (esc :: ']' :: c :: rest) → readCommand (c :: rest) = .unfinished) ∧
      (¬MayComplete (esc :: ']' :: c :: rest) →
        readCommand (c :: rest) = .token .strayEscape (']' :: c :: rest)) := by
  cases rest with
  | nil => exact ⟨fun _ => rfl, fun hno => absurd (Or.inl rfl) hno⟩
  | cons d body =>
      have hlong : ¬(esc :: ']' :: c :: d :: body).length = 3 := by simp
      by_cases hopening : c = '8' ∧ d = ';'
      · obtain ⟨rfl, rfl⟩ := hopening
        have hnone : Hyperlink.read? body = none := by
          rw [Hyperlink.read?_eq_none_iff]
          rintro l tail hl rfl
          exact h l tail hl (by simp [Hyperlink.spell, Hyperlink.opening])
        have hopen : MayComplete (esc :: ']' :: '8' :: ';' :: body) ↔ RunsOut body := by
          have hsearch : search (esc :: ']' :: '8' :: ';' :: body) = search body :=
            search_opening body
          rw [MayComplete, or_iff_right hlong, ← runsOut_iff, RunsOut, RunsOut, hsearch]
          exact and_iff_right rfl
        rw [readCommand_hyperlink, hopen]
        exact readHyperlink_of_none hnone
      · have hshort : ¬MayComplete (esc :: ']' :: c :: d :: body) := by
          rintro (hlength | ⟨heq, -⟩)
          · exact hlong hlength
          · have hpair : [c, d] = [.scalar '8', .scalar ';'] := heq
            rw [List.cons.injEq, List.cons.injEq] at hpair
            exact hopening ⟨hpair.1, hpair.2.1⟩
        exact ⟨fun hmay => absurd hmay hshort, fun _ => readCommand_other hopening body⟩

theorem step_next_eq_token_iff {buffer tail : Text} {t : Token} :
    step buffer .next = (.reading (.token t tail), tail) ↔ read buffer = .token t tail := by
  constructor
  · intro h
    simpa [step] using congrArg Prod.fst h
  · exact step_next_of_token

/--
**What comes of a buffer that begins with `ESC ]`.**  A hyperlink is read exactly when one is
spelled out at the front.  There is one at most, and what follows it plays no part.  Without
one, the buffer waits while it may still become one, and gives up its escape character
otherwise.
-/
theorem step_next_command (c : CodePoint) (rest : Text) :
    let buffer := esc :: ']' :: c :: rest
    (∀ url label tail,
      step buffer .next = (.reading (.token (.hyperlink url label) tail), tail) ↔
        ∃ l : Hyperlink, l.WellFormed ∧ l.url = url ∧ l.label = label ∧
          buffer = l.spell ++ tail) ∧
    (∀ (l l' : Hyperlink) (tail tail' : Text), l.WellFormed → l'.WellFormed →
      buffer = l.spell ++ tail → buffer = l'.spell ++ tail' → l = l' ∧ tail = tail') ∧
    (∀ (l : Hyperlink) (tail other : Text), l.WellFormed → buffer = l.spell ++ tail →
      step (l.spell ++ other) .next
        = (.reading (.token (.hyperlink l.url l.label) other), other)) ∧
    ((∀ (l : Hyperlink) (tail : Text), l.WellFormed → buffer ≠ l.spell ++ tail) →
      (step buffer .next = (.reading .unfinished, buffer) ↔ MayComplete buffer) ∧
      (¬MayComplete buffer →
        step buffer .next = (.reading (.token .strayEscape (']' :: c :: rest)),
          .scalar ']' :: c :: rest))) := by
  intro buffer
  refine ⟨?_, ?_, ?_, ?_⟩
  · intro url label tail
    rw [step_next_eq_token_iff, read_eq_hyperlink_iff]
  · intro l l' tail tail' hl hl' h h'
    refine Hyperlink.eq_of_body_append hl hl' ?_
    have hspell := h.symm.trans h'
    simpa [Hyperlink.spell] using hspell
  · intro l tail other hl _
    exact step_next_of_token (read_spell hl other)
  · intro hno
    obtain ⟨hwaits, hstray⟩ := readCommand_of_noWord hno
    have hgives : ¬MayComplete buffer → step buffer .next
        = (.reading (.token .strayEscape (.scalar ']' :: c :: rest)),
          .scalar ']' :: c :: rest) := by
      intro hmay
      refine step_next_of_token ?_
      rw [read_command, hstray hmay]
    refine ⟨⟨?_, ?_⟩, hgives⟩
    · intro hstep
      refine Classical.byContradiction fun hmay => ?_
      rw [hgives hmay] at hstep
      cases hstep
    · intro hmay
      refine step_next_of_unfinished ?_
      rw [read_command, hwaits hmay]

-- A line feed after the second terminator is not looked at; before it, it ends the wait.
example : step "\x1b]8;;u\x07t\x1b]8;;\x07\n".toText .next
    = (.reading (.token (.hyperlink "u".toText "t".toText) "\n".toText), "\n".toText) := by
  decide +kernel
example : step "\x1b]8;;u\x07t\n".toText .next
    = (.reading (.token .strayEscape "]8;;u\x07t\n".toText), "]8;;u\x07t\n".toText) := by
  decide +kernel

end Buffer

end TerminalMarkup
