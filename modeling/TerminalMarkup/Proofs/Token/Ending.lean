/-
The calls that read a buffer, and the calls that end it.

A converter reads a buffer by asking for tokens until it is refused one.  To end the
stream it does so again and again, and each time something is left it drops the first
character.  Neither loop has a bound that could be seen from outside.  `Drains` and
`Finishes` are the two loops call by call, with nothing decided but what the answer
to a call decides; that there are such calls for every buffer is that the loops end.

What makes them end is that a token takes at least one character, so the length of
the buffer bounds the number of calls.  What makes the dropped characters harmless is
that a buffer without a token begins with the escape character, unless it is empty.
-/
import TerminalMarkup.Proofs.Token.Conservation

namespace TerminalMarkup

open Token

namespace Token

/-- Nothing can be read from the empty buffer, or from one whose first sequence is unfinished. -/
theorem stuck_iff {buffer : Text} :
    Stuck buffer ↔ buffer = [] ∨ ∃ tail, buffer = esc :: tail ∧ read buffer = .unfinished := by
  constructor
  · intro h
    cases hread : read buffer with
    | token t rest => exact absurd hread (h t rest)
    | finished => exact Or.inl (read_eq_finished.mp hread)
    | unfinished =>
        obtain ⟨tail, htail⟩ := eq_esc_cons_of_unfinished hread
        exact Or.inr ⟨tail, htail, rfl⟩
  · rintro (rfl | ⟨tail, -, hread⟩) t rest h
    · simp at h
    · simp [hread] at h

end Token

namespace Buffer

/-! ### Reading until nothing can be read -/

/-- The calls of a loop that asks for tokens and stops when it gets none. -/
inductive Drains : Text → List Step → Prop
  | stop {buffer : Text} (h : Stuck buffer) : Drains buffer [.next]
  | token {buffer rest : Text} {t : Token} {calls : List Step} (h : read buffer = .token t rest)
      (hrest : Drains rest calls) : Drains buffer (.next :: calls)

theorem exists_drains (buffer : Text) : ∃ calls, Drains buffer calls := by
  induction buffer using read_induction with
  | stuck buffer h => exact ⟨_, .stop h⟩
  | token buffer t rest h ih =>
      obtain ⟨calls, hcalls⟩ := ih
      exact ⟨_, .token h hcalls⟩

namespace Drains

variable {buffer : Text} {calls : List Step}

theorem length_le (h : Drains buffer calls) : calls.length ≤ buffer.length + 1 := by
  induction h with
  | stop h => simp
  | token h _ ih =>
      have hlt := length_lt_of_read h
      rw [List.length_cons]
      omega

theorem run_eq (h : Drains buffer calls) : run buffer calls = drain buffer := by
  induction h with
  | stop h => rw [run_cons, step_next_of_stuck h, run_nil, drain_of_stuck h]
  | token h _ ih => rw [run_cons, step_next_of_token h, ih, drain_of_token h]

end Drains

/-! ### Ending -/

/-- The calls of a loop that asks for tokens, and when it gets none drops a character and goes on,
until the buffer is empty. -/
inductive Finishes : Text → List Step → Prop
  | done {buffer : Text} (h : Stuck buffer) (hempty : buffer = []) : Finishes buffer [.next]
  | token {buffer rest : Text} {t : Token} {calls : List Step} (h : read buffer = .token t rest)
      (hrest : Finishes rest calls) : Finishes buffer (.next :: calls)
  | skip {buffer : Text} {calls : List Step} (h : Stuck buffer) (hne : buffer ≠ [])
      (hrest : Finishes (buffer.drop 1) calls) : Finishes buffer (.next :: .skip :: calls)

theorem exists_finishes (buffer : Text) : ∃ calls, Finishes buffer calls := by
  induction buffer using end_induction with
  | nil => exact ⟨_, .done (stuck_iff.mpr (Or.inl rfl)) rfl⟩
  | token buffer t rest h ih =>
      obtain ⟨calls, hcalls⟩ := ih
      exact ⟨_, .token h hcalls⟩
  | unfinished tail h ih =>
      obtain ⟨calls, hcalls⟩ := ih
      exact ⟨_, .skip (stuck_iff.mpr (Or.inr ⟨tail, rfl, h⟩)) (by simp) hcalls⟩

namespace Finishes

variable {buffer : Text} {calls : List Step}

/-- Every token takes a character, and so does every call that drops one. -/
theorem length_le (h : Finishes buffer calls) : calls.length ≤ 2 * buffer.length + 1 := by
  induction h with
  | done h hempty => simp
  | token h _ ih =>
      have hlt := length_lt_of_read h
      rw [List.length_cons]
      omega
  | @skip buffer _ h hne _ ih =>
      have hpos := List.length_pos_iff.mpr hne
      simp only [List.length_cons, List.length_drop] at ih ⊢
      omega

theorem run_token {rest : Text} {t : Token} (h : read buffer = .token t rest) :
    run buffer (.next :: calls)
      = (.reading (.token t rest) :: (run rest calls).1, (run rest calls).2) := by
  rw [run_cons, step_next_of_token h]

theorem run_skip (h : Stuck buffer) :
    run buffer (.next :: .skip :: calls) =
      (.reading (read buffer) :: .skipped (buffer.take 1) :: (run (buffer.drop 1) calls).1,
        (run (buffer.drop 1) calls).2) := by
  rw [run_cons, step_next_of_stuck h, run_cons]
  rfl

/-- Nothing is left. -/
theorem left (h : Finishes buffer calls) : (run buffer calls).2 = [] := by
  induction h with
  | done h hempty =>
      rw [run_cons, step_next_of_stuck h]
      exact hempty
  | token h _ ih => rw [run_token h, ih]
  | skip h hne _ ih => rw [run_skip h, ih]

/-- The loop only takes from the buffer. -/
theorem fed_eq_nil (h : Finishes buffer calls) : .reset ∉ calls ∧ fed calls = [] := by
  induction h with
  | done h hempty => simp [fed]
  | token h _ ih => simpa [fed] using ih
  | skip h hne _ ih => simpa [fed] using ih

/-- The buffer is what the calls take. -/
theorem takes (h : Finishes buffer calls) :
    ∃ spans, List.Forall₂ Answer.Takes (run buffer calls).1 spans ∧ buffer = spans.flatten := by
  obtain ⟨hreset, hfed⟩ := h.fed_eq_nil
  obtain ⟨spans, hspans, hbuffer⟩ := run_takes calls hreset buffer
  refine ⟨spans, hspans, ?_⟩
  simpa [hfed, h.left] using hbuffer

/-- Only escape characters are dropped. -/
theorem eq_esc_of_skipped (h : Finishes buffer calls) {chars : Text}
    (hmem : .skipped chars ∈ (run buffer calls).1) : chars = [esc] := by
  induction h with
  | done h hempty => simp [step] at hmem
  | token h _ ih =>
      rw [run_token h] at hmem
      exact ih (by simpa using hmem)
  | skip h hne _ ih =>
      rw [run_skip h] at hmem
      rcases stuck_iff.mp h with hempty | ⟨tail, rfl, -⟩
      · exact absurd hempty hne
      · simp only [List.mem_cons, reduceCtorEq, Answer.skipped.injEq, false_or] at hmem
        rcases hmem with rfl | hmem
        · rfl
        · exact ih hmem

/-- For every character that is dropped there is an escape character in the buffer. -/
theorem count_skip_le (h : Finishes buffer calls) : calls.count .skip ≤ buffer.count esc := by
  induction h with
  | done h hempty => simp
  | token h _ ih =>
      obtain ⟨span, -, rfl⟩ := spells_of_read h
      rw [List.count_append, List.count_cons_of_ne (by simp)]
      omega
  | skip h hne _ ih =>
      rcases stuck_iff.mp h with hempty | ⟨tail, rfl, -⟩
      · exact absurd hempty hne
      · simpa using ih

end Finishes

end Buffer

end TerminalMarkup
