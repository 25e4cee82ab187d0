/-
Nothing is lost on the way through the buffer.

Every call takes some characters from the front of the buffer, perhaps none, and its
answer tells which.  Put together in the order of the calls, and with what is still
in the buffer after them, these are the characters that were fed.  So the buffer is
what has not been read yet, no more and no less.

For a token the characters taken are a word of the grammar, and which one depends on
the token: `Token.Takes` goes through the kinds.  A reset forgets the buffer together
with everything that was fed before it, so the account begins anew there.
-/
import Mathlib.Data.List.DropRight
import TerminalMarkup.Proofs.Token.Schedule

namespace TerminalMarkup

open Token

/-! ### What a token takes -/

/-- The characters that a token takes from the buffer. -/
def Token.Takes : Token → Text → Prop
  | .text chars, span => span = chars ∧ chars ≠ [] ∧ ∀ c ∈ chars, c ≠ esc
  | .strayEscape, span => span = [esc]
  | .rendition params, span =>
    span = esc :: .scalar '[' :: params ++ [.scalar 'm'] ∧
      ∀ c ∈ params, ControlSequence.isParam c = true
  | .control params, span =>
    (∃ c, params = [] ∧ span = [esc, '(', c]) ∨
      ∃ s : ControlSequence,
        s.WellFormed ∧ s.isRendition = false ∧ s.params = params ∧ span = s.spell
  | .hyperlink url label, span =>
    ∃ l : Hyperlink, l.WellFormed ∧ l.url = url ∧ l.label = label ∧ span = l.spell

/-- A control sequence that selects a rendition has nothing in it but its parameters. -/
theorem ControlSequence.spell_of_isRendition {s : ControlSequence} (h : s.isRendition = true) :
    s.spell = esc :: .scalar '[' :: s.params ++ [.scalar 'm'] := by
  obtain ⟨mark, params, intermediate, final⟩ := s
  simp only [isRendition, Bool.and_eq_true, Option.isNone_iff_eq_none, beq_iff_eq] at h
  obtain ⟨⟨rfl, rfl⟩, rfl⟩ := h
  simp [spell, body]

theorem ControlSequence.takes_token {s : ControlSequence} (hs : s.WellFormed) :
    s.token.Takes s.spell := by
  cases h : s.isRendition with
  | true =>
      rw [ControlSequence.token, if_pos h]
      exact ⟨spell_of_isRendition h, hs.2.1⟩
  | false =>
      rw [ControlSequence.token, if_neg (by simp [h])]
      exact Or.inr ⟨s, hs, h, rfl, rfl⟩

theorem Token.Spells.takes {t : Token} {span : Text} (h : Spells t span) : t.Takes span := by
  cases h with
  | text hne hchars => exact ⟨rfl, hne, hchars⟩
  | control hs => exact ControlSequence.takes_token hs
  | @hyperlink l hl => exact ⟨l, hl, rfl, rfl, rfl⟩
  | charset c => exact Or.inl ⟨c, rfl, rfl⟩
  | strayEscape => rfl

namespace Buffer

/-! ### What a call takes -/

/-- The characters that a call takes from the buffer, as its answer tells. -/
def Answer.Takes : Answer → Text → Prop
  | .done, span => span = []
  | .reading (.token t _), span => t.Takes span
  | .reading _, span => span = []
  | .skipped chars, span => span = chars ∧ chars.length ≤ 1

theorem takes_of_stuck {buffer : Text} (h : Stuck buffer) :
    (Answer.reading (read buffer)).Takes [] := by
  cases hread : read buffer with
  | token t rest => exact absurd hread (h t rest)
  | finished => rfl
  | unfinished => rfl

theorem fed_cons (s : Step) (rest : List Step) : fed (s :: rest) = fed [s] ++ fed rest := by
  cases s <;> simp [fed]

/-- One call, unless it is a reset, leaves what it does not take. -/
theorem step_takes {s : Step} (h : s ≠ .reset) (buffer : Text) :
    ∃ span, (step buffer s).1.Takes span ∧ buffer ++ fed [s] = span ++ (step buffer s).2 := by
  cases s with
  | feed chars => exact ⟨[], rfl, by simp [step, fed]⟩
  | next =>
      rcases token_or_stuck buffer with ⟨t, rest, hread⟩ | hstuck
      · obtain ⟨span, hspells, hbuffer⟩ := spells_of_read hread
        rw [step_next_of_token hread]
        exact ⟨span, hspells.takes, by simpa [fed] using hbuffer⟩
      · rw [step_next_of_stuck hstuck]
        exact ⟨[], takes_of_stuck hstuck, by simp [fed]⟩
  | skip =>
      refine ⟨buffer.take 1, ⟨rfl, List.length_take_le 1 buffer⟩, ?_⟩
      show buffer ++ [] = _
      rw [List.append_nil]
      exact (List.take_append_drop 1 buffer).symm
  | reset => exact absurd rfl h

/-! ### What calls in turn take -/

theorem run_append (buffer : Text) (before after : List Step) :
    run buffer (before ++ after) =
      ((run buffer before).1 ++ (run (run buffer before).2 after).1,
        (run (run buffer before).2 after).2) := by
  induction before generalizing buffer with
  | nil => rfl
  | cons s before ih => rw [List.cons_append, run_cons, ih, run_cons, List.cons_append]

theorem length_run (buffer : Text) (steps : List Step) :
    (run buffer steps).1.length = steps.length := by
  induction steps generalizing buffer with
  | nil => rfl
  | cons s rest ih => rw [run_cons, List.length_cons, ih, List.length_cons]

/-- The induction is on the calls: what the first one leaves is what the others start from. -/
theorem run_takes (steps : List Step) (h : .reset ∉ steps) :
    ∀ buffer : Text, ∃ spans, List.Forall₂ Answer.Takes (run buffer steps).1 spans ∧
      buffer ++ fed steps = spans.flatten ++ (run buffer steps).2 := by
  induction steps with
  | nil => exact fun buffer => ⟨[], .nil, by simp [fed]⟩
  | cons s rest ih =>
      intro buffer
      rw [List.mem_cons, not_or] at h
      obtain ⟨span, hspan, hstep⟩ := step_takes (Ne.symm h.1) buffer
      obtain ⟨spans, hspans, hrest⟩ := ih h.2 (step buffer s).2
      refine ⟨span :: spans, .cons hspan hspans, ?_⟩
      calc buffer ++ fed (s :: rest) = (buffer ++ fed [s]) ++ fed rest := by
            rw [fed_cons, List.append_assoc]
        _ = span ++ ((step buffer s).2 ++ fed rest) := by rw [hstep, List.append_assoc]
        _ = span ++ (spans.flatten ++ (run (step buffer s).2 rest).2) := by rw [hrest]
        _ = _ := by rw [run_cons, List.flatten_cons, List.append_assoc]

/-! ### The account since the last reset -/

/-- The calls since the last reset; all of them, if there was none. -/
def sinceReset (steps : List Step) : List Step := steps.rtakeWhile (· != .reset)

theorem reset_not_mem_sinceReset (steps : List Step) : .reset ∉ sinceReset steps := by
  intro h
  simpa using List.mem_rtakeWhile_imp h

/-- The calls before them leave nothing in the buffer. -/
theorem eq_append_sinceReset (steps : List Step) :
    ∃ before, steps = before ++ sinceReset steps ∧ (run [] before).2 = [] := by
  refine ⟨steps.rdropWhile (· != .reset), (List.rdropWhile_append_rtakeWhile ..).symm, ?_⟩
  by_cases hne : steps.rdropWhile (· != .reset) = []
  · rw [hne, run_nil]
  · have hlast := List.rdropWhile_last_not _ _ hne
    simp only [bne_iff_ne, ne_eq, not_not] at hlast
    rw [← List.dropLast_append_getLast hne, hlast, run_append, run_cons]
    rfl

/-- What was before the last reset has no part in what came after it. -/
theorem run_sinceReset (steps : List Step) :
    (run [] steps).1.rtake (sinceReset steps).length = (run [] (sinceReset steps)).1 ∧
      (run [] steps).2 = (run [] (sinceReset steps)).2 := by
  obtain ⟨before, hsteps, hempty⟩ := eq_append_sinceReset steps
  have hrun : run [] steps = ((run [] before).1 ++ (run [] (sinceReset steps)).1,
      (run [] (sinceReset steps)).2) := by
    conv_lhs => rw [hsteps, run_append, hempty]
  rw [hrun, ← length_run [] (sinceReset steps), List.rtake, List.length_append,
    Nat.add_sub_cancel, List.drop_left]
  exact ⟨rfl, rfl⟩

/--
**The buffer is what has been fed and not been taken.**  At any time, what the calls
since the last reset have taken and what is in the buffer are, one after the other,
what these calls have fed.  Another token would make the buffer shorter, and a
character can be skipped unless the buffer is empty.
-/
theorem run_conserves (steps : List Step) :
    let (answers, buffer) := run [] steps
    (∃ spans,
        List.Forall₂ Answer.Takes (answers.rtake (sinceReset steps).length) spans ∧
        fed (sinceReset steps) = spans.flatten ++ buffer) ∧
      (∀ t rest, (step buffer .next).1 = .reading (.token t rest) →
        (step buffer .next).2.length < buffer.length) ∧
      ((step buffer .skip).1 = .skipped [] ↔ buffer = []) := by
  obtain ⟨spans, hspans, hfed⟩ := run_takes _ (reset_not_mem_sinceReset steps) []
  obtain ⟨hanswers, hbuffer⟩ := run_sinceReset steps
  refine ⟨⟨spans, ?_, ?_⟩, ?_, ?_⟩
  · rw [hanswers]
    exact hspans
  · rw [hbuffer]
    exact hfed
  · intro t rest hnext
    have hread : read (run [] steps).2 = .token t rest := by simpa [step] using hnext
    rw [step_next_of_token hread]
    exact length_lt_of_read hread
  · simp [step]

-- What was fed before the reset is neither taken nor in the buffer.
example : run [] [.feed ['a', 'b'], .reset, .feed [esc, '(', 'B', 'c'], .next, .skip, .skip]
    = ([.done, .done, .done, .reading (.token (.control []) ['c']), .skipped ['c'], .skipped []],
      []) := by
  decide +kernel

end Buffer

end TerminalMarkup
