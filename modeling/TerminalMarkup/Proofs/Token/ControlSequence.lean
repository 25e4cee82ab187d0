/-
A buffer that begins with `ESC [`.

After the bracket everything is settled by the graphic characters that follow it, as
far as they go, and by the character that ends their run.  A control sequence is made of
graphic characters, so if there is one it lies within the run and is read, whatever comes
after it.  If there is none, a colon in the run or a control character at its end makes
the reader give up the escape character; otherwise the reader waits.

It may wait for nothing.  When a character beyond the graphic ones ends the run, neither
the run nor its end can change any more, and the answer stays what it is
(`readControl_append_of_blocked`).  Only while the run goes up to the end of the buffer is
there something to wait for: a control character, for one, would end it.
-/
import TerminalMarkup.Proofs.Token.Grammar
import TerminalMarkup.Proofs.Token.Schedule

namespace TerminalMarkup

open Text

namespace ControlSequence

/-! ### The run of graphic characters -/

/-- The graphic characters that a text begins with, as far as they go. -/
def graphicRun (t : Text) : Text := t.takeWhile isGraphic

/-- The character right after them; there is none when they go up to the end. -/
def runEnd? (t : Text) : Option CodePoint := (t.dropWhile isGraphic).head?

/-- A colon stands in the run, or a control character at its end. -/
def IsInterrupted (t : Text) : Prop :=
  (':' : CodePoint) ∈ graphicRun t ∨ ∃ c ∈ runEnd? t, isControl c = true

/-- A character beyond the graphic ones ends the run. -/
def IsBlocked (t : Text) : Prop := ∃ c ∈ runEnd? t, 0x7f ≤ c.toNat

theorem isBroken_eq_true_iff {t : Text} : isBroken t = true ↔ IsInterrupted t := by
  unfold isBroken IsInterrupted graphicRun runEnd?
  rw [Bool.or_eq_true, List.contains_iff_mem]
  cases t.dropWhile isGraphic with
  | nil => simp
  | cons c rest => simp

theorem exists_append_of_runEnd? {t : Text} {c : CodePoint} (h : runEnd? t = some c) :
    ∃ rest, t = graphicRun t ++ c :: rest ∧ isGraphic c = false := by
  have hsplit := List.takeWhile_append_dropWhile (p := isGraphic) (l := t)
  have hstop := avoids_dropWhile isGraphic t c h
  obtain ⟨rest, hrest⟩ := List.head?_eq_some_iff.mp h
  exact ⟨rest, by rw [graphicRun, ← hrest, hsplit], hstop⟩

/-- A run that has ended is the same in a longer text, and so is its end. -/
theorem run_append {t : Text} {c : CodePoint} (h : runEnd? t = some c) (more : Text) :
    graphicRun (t ++ more) = graphicRun t ∧ runEnd? (t ++ more) = some c := by
  obtain ⟨rest, ht, hc⟩ := exists_append_of_runEnd? h
  have hrun : ∀ d ∈ graphicRun t, isGraphic d = true := fun d hd => mem_takeWhile hd
  have hstop : Avoids isGraphic (c :: (rest ++ more)) := .cons hc _
  have hmore : t ++ more = graphicRun t ++ c :: (rest ++ more) := by
    calc t ++ more = (graphicRun t ++ c :: rest) ++ more := congrArg (· ++ more) ht
      _ = graphicRun t ++ c :: (rest ++ more) := by rw [List.append_assoc, List.cons_append]
  constructor
  · rw [graphicRun, hmore, takeWhile_run hrun hstop]
  · rw [runEnd?, hmore, dropWhile_run hrun hstop]
    rfl

/-! ### Control sequences -/

/-- A text begins with one control sequence at most. -/
theorem eq_of_body_append {s s' : ControlSequence} {rest rest' : Text} (hs : s.WellFormed)
    (hs' : s'.WellFormed) (h : s.body ++ rest = s'.body ++ rest') : s = s' ∧ rest = rest' := by
  have hread := read?_body hs rest
  rw [h, read?_body hs', Option.some.injEq, Prod.mk.injEq] at hread
  exact ⟨hread.1.symm, hread.2.symm⟩

theorem read?_eq_none_iff {t : Text} :
    read? t = none ↔ ∀ (s : ControlSequence) (rest : Text), s.WellFormed → t ≠ s.body ++ rest := by
  constructor
  · rintro h s rest hs rfl
    rw [read?_body hs] at h
    cases h
  · intro h
    cases hread : read? t with
    | none => rfl
    | some found =>
        obtain ⟨s, rest⟩ := found
        obtain ⟨hs, ht⟩ := read?_eq_some.mp hread
        exact absurd ht (h s rest hs)

/-- Where the run has ended and no control sequence lies in it, none ever will. -/
theorem read?_append_of_runEnd? {t : Text} {c : CodePoint} (h : read? t = none)
    (hend : runEnd? t = some c) (more : Text) : read? (t ++ more) = none := by
  rw [read?_eq_none_iff] at h ⊢
  intro s rest hs heq
  obtain ⟨tail, ht, hc⟩ := exists_append_of_runEnd? hend
  rcases List.append_eq_append_iff.mp heq with ⟨more', hbody, -⟩ | ⟨rest', hbody, -⟩
  · -- The sequence would contain the character that ends the run.
    have hmem : c ∈ s.body := by
      rw [hbody, ht]
      simp
    rw [(hs.of_mem_body hmem).1] at hc
    cases hc
  · exact h s rest' hs hbody

end ControlSequence

namespace Token

open ControlSequence

variable {body : Text}

theorem readControl_of_interrupted (h : ControlSequence.read? body = none)
    (hbroken : IsInterrupted body) : readControl body = .token .strayEscape ('[' :: body) := by
  simp only [readControl, h, isBroken_eq_true_iff.mpr hbroken, if_true]

theorem readControl_of_not_interrupted (h : ControlSequence.read? body = none)
    (hwhole : ¬IsInterrupted body) : readControl body = .unfinished := by
  have hbroken : ¬isBroken body = true := fun hbroken => hwhole (isBroken_eq_true_iff.mp hbroken)
  simp only [readControl, h, if_neg hbroken]

theorem not_interrupted_of_unfinished (h : readControl body = .unfinished) :
    ControlSequence.read? body = none ∧ ¬IsInterrupted body := by
  cases hread : ControlSequence.read? body with
  | some found => simp [readControl, hread] at h
  | none =>
      refine ⟨rfl, fun hbroken => ?_⟩
      rw [readControl_of_interrupted hread hbroken] at h
      cases h

/-! ### Waiting -/

/-- Behind a blocked run nothing can be waited for. -/
theorem readControl_append_of_blocked (h : readControl body = .unfinished)
    (hblocked : IsBlocked body) (more : Text) : readControl (body ++ more) = .unfinished := by
  obtain ⟨c, hend, hc⟩ := hblocked
  obtain ⟨hread, hwhole⟩ := not_interrupted_of_unfinished h
  obtain ⟨hrun, hend'⟩ := run_append hend more
  refine readControl_of_not_interrupted (read?_append_of_runEnd? hread hend more) ?_
  unfold IsInterrupted at hwhole ⊢
  rwa [hrun, hend', ← Option.mem_def.mp hend]

/-- A run that is not over yet is ended by a control character, and the wait with it. -/
theorem readControl_lineFeed (h : runEnd? body = none) :
    readControl (body ++ "\n".toText) ≠ .unfinished := by
  intro hwaits
  obtain ⟨-, hwhole⟩ := not_interrupted_of_unfinished hwaits
  have hgraphic : ∀ c ∈ body, isGraphic c = true := by
    have hsplit := List.takeWhile_append_dropWhile (p := isGraphic) (l := body)
    rw [List.head?_eq_none_iff.mp h, List.append_nil] at hsplit
    exact fun c hc => mem_takeWhile (hsplit ▸ hc)
  refine hwhole (isBroken_eq_true_iff.mp (isBroken_iff.mpr ?_))
  exact ⟨body, '\n', [], hgraphic, rfl, Or.inr (by decide)⟩

/-- The end of a run in which the reader waits is beyond the graphic characters. -/
theorem blocked_of_runEnd? {c : CodePoint} (h : ¬IsInterrupted body)
    (hend : runEnd? body = some c) : IsBlocked body := by
  obtain ⟨-, -, hgraphic⟩ := exists_append_of_runEnd? hend
  have hcontrol : ¬isControl c = true := fun hc => h (Or.inr ⟨c, hend, hc⟩)
  refine ⟨c, hend, ?_⟩
  simp only [isControl, decide_eq_true_eq] at hcontrol
  simp only [isGraphic, Bool.and_eq_false_iff, decide_eq_false_iff_not] at hgraphic
  omega

/-- **The reader waits in vain exactly behind a blocked run.** -/
theorem unfinished_append_iff (h : readControl body = .unfinished) :
    (∀ more, readControl (body ++ more) = .unfinished) ↔ IsBlocked body := by
  constructor
  · intro hwaits
    cases hend : runEnd? body with
    | none => exact absurd (hwaits ['\n']) (readControl_lineFeed hend)
    | some c => exact blocked_of_runEnd? (not_interrupted_of_unfinished h).2 hend
  · exact readControl_append_of_blocked h

end Token

namespace Buffer

open Token ControlSequence

/-! ### Calls that find nothing -/

/-- However the buffer is fed and read, no token comes of it. -/
def WaitsInVain (buffer : Text) : Prop :=
  ∀ steps : List Step, (∀ s ∈ steps, s.isOrderly = true) →
    (run buffer steps).2 = buffer ++ fed steps ∧
      ∀ a ∈ (run buffer steps).1, a = .done ∨ a = .reading .unfinished

theorem waitsInVain_iff {buffer : Text} :
    WaitsInVain buffer ↔ ∀ more, read (buffer ++ more) = .unfinished := by
  constructor
  · intro h more
    obtain ⟨-, hanswers⟩ := h [.feed more, .next] (by simp [Step.isOrderly])
    have hlast := hanswers (.reading (read (buffer ++ more))) (by simp [step])
    simpa using hlast
  · intro h steps
    -- The induction is on the calls; what is fed by one is in the buffer of the others.
    induction steps generalizing buffer with
    | nil => exact fun _ => ⟨by simp [fed], by simp⟩
    | cons s rest ih =>
        intro horderly
        have hrest : ∀ s ∈ rest, s.isOrderly = true :=
          fun s hs => horderly s (List.mem_cons_of_mem _ hs)
        cases s with
        | feed chars =>
            have hfed : ∀ more, read (buffer ++ chars ++ more) = .unfinished := by
              intro more
              rw [List.append_assoc]
              exact h (chars ++ more)
            obtain ⟨hbuffer, hanswers⟩ := ih hfed hrest
            refine ⟨?_, ?_⟩
            · rw [run_cons]
              exact hbuffer.trans (List.append_assoc ..)
            · intro a ha
              rcases List.mem_cons.mp ha with rfl | ha
              · exact Or.inl rfl
              · exact hanswers a ha
        | next =>
            have hnow : read buffer = .unfinished := by simpa using h []
            obtain ⟨hbuffer, hanswers⟩ := ih h hrest
            rw [run_cons, step_next_of_unfinished hnow]
            refine ⟨hbuffer, ?_⟩
            intro a ha
            rcases List.mem_cons.mp ha with rfl | ha
            · exact Or.inr rfl
            · exact hanswers a ha
        | skip => exact absurd (horderly .skip List.mem_cons_self) (by decide)
        | reset => exact absurd (horderly .reset List.mem_cons_self) (by decide)

/-! ### The three answers -/

theorem read_control (body : Text) : read (esc :: '[' :: body) = readControl body := by
  rw [read_esc, readEscape_control]

theorem control_append_iff {s : ControlSequence} {body rest : Text} :
    esc :: '[' :: body = s.spell ++ rest ↔ body = s.body ++ rest := by
  simp [ControlSequence.spell]

/--
**What comes of a buffer that begins with `ESC [`.**  It begins with one control sequence
at most.  If it does, that is read and nothing after it matters.  If it does not, the
escape character is given up when the run of graphic characters is interrupted, and the
buffer waits otherwise; it waits in vain exactly when the run is blocked.
-/
theorem step_next_control (c : CodePoint) (rest : Text) :
    let body := c :: rest
    let buffer := esc :: '[' :: body
    (∀ (s s' : ControlSequence) (tail tail' : Text), s.WellFormed → s'.WellFormed →
      buffer = s.spell ++ tail → buffer = s'.spell ++ tail' → s = s' ∧ tail = tail') ∧
    (∀ (s : ControlSequence) (tail : Text), s.WellFormed → buffer = s.spell ++ tail →
      step buffer .next =
        (.reading (.token
          (if s.mark = none ∧ s.intermediate = none ∧ s.final = 'm' then .rendition s.params
            else .control s.params) tail), tail)) ∧
    ((∀ (s : ControlSequence) (tail : Text), s.WellFormed → buffer ≠ s.spell ++ tail) →
      (IsInterrupted body →
        step buffer .next =
          (.reading (.token .strayEscape (.scalar '[' :: body)), .scalar '[' :: body)) ∧
      (¬IsInterrupted body → step buffer .next = (.reading .unfinished, buffer) ∧
        (WaitsInVain buffer ↔ IsBlocked body))) := by
  intro body buffer
  refine ⟨?_, ?_, ?_⟩
  · intro s s' tail tail' hs hs' h h'
    rw [control_append_iff] at h h'
    exact eq_of_body_append hs hs' (h.symm.trans h')
  · intro s tail hs h
    have htoken : s.token = if s.mark = none ∧ s.intermediate = none ∧ s.final = 'm' then
        .rendition s.params else .control s.params := by
      simp [ControlSequence.token, isRendition, and_assoc]
    rw [← htoken]
    refine step_next_of_token ?_
    rw [read_control, control_append_iff.mp h, readControl_body hs]
  · intro hno
    have hnone : ControlSequence.read? body = none := by
      rw [read?_eq_none_iff]
      exact fun s tail hs h => hno s tail hs (control_append_iff.mpr h)
    refine ⟨?_, ?_⟩
    · intro hbroken
      refine step_next_of_token ?_
      rw [read_control, readControl_of_interrupted hnone hbroken]
    · intro hwhole
      have hwaits : readControl body = .unfinished := readControl_of_not_interrupted hnone hwhole
      refine ⟨step_next_of_unfinished ((read_control body).trans hwaits), ?_⟩
      rw [waitsInVain_iff, ← unfinished_append_iff hwaits]
      exact forall_congr' fun more => by rw [← read_control]; rfl

-- A colon after the final character interrupts nothing; two intermediates are one too many.
example : step "\x1b[1m:".toText .next
    = (.reading (.token (.rendition "1".toText) ":".toText), ":".toText) := by decide
example : step "\x1b[ !q\n".toText .next
    = (.reading (.token .strayEscape "[ !q\n".toText), "[ !q\n".toText) := by decide

end Buffer

end TerminalMarkup
