/-
A converter between two calls.

Whatever a session has done, what is in the buffer cannot be read: it is nothing, or
a sequence that is unfinished.  That is the invariant, and the calls of a session keep
it because each of them reads on until nothing can be read.  `Quiescent` lists what
follows for the calls that may come next.  An empty chunk does nothing.  Any other
chunk, and the end of the stream, are taken in by finitely many calls of the buffer,
with a bound that depends on the length of the buffer only.  What is shown is the
HTML of the tokens that these calls yield, all of them and in order, and what they
leave, with the style after those tokens, is the stream afterwards.  The end of the
stream gives up escape characters that belong to no packet, leaves nothing, and
leaves nothing to do for another end.
-/
import TerminalMarkup.Proofs.Converter.Packets
import TerminalMarkup.Proofs.Token.Ending

namespace TerminalMarkup

open Token

namespace Buffer

/-- The tokens of the calls are those of the packets. -/
theorem Drains.tokens_eq {buffer : Text} {calls : List Step} (h : Drains buffer calls)
    (start : Nat) (s : Style) :
    tokens (run buffer calls).1 = (Stream.packets start ⟨buffer, s⟩).map Packet.token := by
  rw [h.run_eq, Stream.packets_tokens]
  exact (drained_eq_readAll buffer).1

theorem Finishes.tokens_eq {buffer : Text} {calls : List Step} (h : Finishes buffer calls) :
    ∀ (start : Nat) (s : Style),
      tokens (run buffer calls).1 = (Stream.finalPackets start ⟨buffer, s⟩).map Packet.token := by
  induction h with
  | done h hempty =>
      intro start s
      rw [run_cons, step_next_of_stuck h, tokens_stuck h, hempty, Stream.finalPackets_nil]
      rfl
  | token h _ ih =>
      intro start s
      rw [run_token h, tokens_token, Stream.finalPackets_of_token h, List.map_cons, ← ih]
  | skip h hne _ ih =>
      intro start s
      rcases stuck_iff.mp h with hempty | ⟨tail, rfl, hread⟩
      · exact absurd hempty hne
      · -- The dropped character is no token.
        rw [run_skip h, tokens_stuck h, Stream.finalPackets_of_unfinished hread]
        exact ih (start + 1) s

end Buffer

namespace Stream

/-- The end leaves nothing. -/
theorem finish_buffer (buffer : Text) (s : Style) : (finish ⟨buffer, s⟩).2.buffer = [] := by
  induction buffer using end_induction generalizing s with
  | nil => rw [finish_nil]
  | token buffer t rest h ih => rw [finish_of_token h, ih]
  | unfinished tail h ih => rw [finish_of_unfinished h, ih]

end Stream

namespace Converter

/-! ### The invariant -/

theorem stuck_step {c : Converter} (h : Stuck c.stream.buffer) (s : Step) :
    Stuck (c.step s).2.stream.buffer := by
  cases s with
  | convert chunk => exact Stream.stuck_advance _
  | finish =>
      have hempty : (c.step .finish).2.stream.buffer = [] := Stream.finish_buffer _ _
      rw [hempty]
      exact stuck_iff.mpr (Or.inl rfl)
  | reset => exact stuck_iff.mpr (Or.inl rfl)
  | edit e => exact h
  | replace settings => exact h

theorem stuck_run {c : Converter} (h : Stuck c.stream.buffer) (steps : List Step) :
    Stuck (c.run steps).2.stream.buffer := by
  induction steps generalizing c with
  | nil => exact h
  | cons s rest ih => exact ih (stuck_step h s)

/-! ### What follows from it -/

/-- What the calls that may come next do. -/
structure Quiescent (c : Converter) : Prop where
  /-- Nothing is waiting, or an unfinished sequence. -/
  waiting : c.stream.buffer = [] ∨
    ∃ tail, c.stream.buffer = esc :: tail ∧ read c.stream.buffer = .unfinished
  /-- An empty chunk shows nothing and changes nothing. -/
  idle : c.step (.convert []) = ({}, c)
  /-- A chunk is read in finitely many calls, and their tokens are what is shown of it. -/
  convert (chunk : Text) :
    let buffer := c.stream.buffer ++ chunk
    ∃ calls, Buffer.Drains buffer calls ∧ calls.length ≤ buffer.length + 1 ∧
      let tokens := Buffer.tokens (Buffer.run buffer calls).1
      (c.step (.convert chunk)).1.html = Html.ofTokens c.settings c.stream.style tokens ∧
      (c.step (.convert chunk)).2 = { c with
        stream := ⟨(Buffer.run buffer calls).2, c.stream.style.afterTokens tokens⟩ }
  /-- So is the end.  Every character of the buffer is in a packet or is an escape character that
  is dropped by itself. -/
  finish :
    let buffer := c.stream.buffer
    ∃ calls, Buffer.Finishes buffer calls ∧ calls.length ≤ 2 * buffer.length + 1 ∧
      (let tokens := Buffer.tokens (Buffer.run buffer calls).1
      (c.step .finish).1.html = Html.ofTokens c.settings c.stream.style tokens ∧
      (c.step .finish).2 = { c with
        stream := ⟨(Buffer.run buffer calls).2, c.stream.style.afterTokens tokens⟩ }) ∧
      (∃ spans, List.Forall₂ Buffer.Answer.Takes (Buffer.run buffer calls).1 spans ∧
        buffer = spans.flatten) ∧
      (∀ chars, .skipped chars ∈ (Buffer.run buffer calls).1 → chars = [esc]) ∧
      calls.count .skip ≤ buffer.count esc
  /-- The end leaves nothing. -/
  finished : (c.step .finish).2.stream.buffer = []
  /-- Another end shows nothing and changes nothing. -/
  final : (c.step .finish).2.step .finish = ({}, (c.step .finish).2)

theorem step_convert_nil {c : Converter} (h : Stuck c.stream.buffer) :
    c.step (.convert []) = ({}, c) := by
  have hconvert : c.stream.convert [] = ([], c.stream) := by
    rw [Stream.convert, List.append_nil]
    exact Stream.advance_of_stuck h _
  simp only [step, hconvert]
  rfl

theorem step_finish_nil {c : Converter} (h : c.stream.buffer = []) :
    c.step .finish = ({}, c) := by
  obtain ⟨settings, buffer, style⟩ := c
  simp only at h
  subst h
  simp only [step, Stream.finish_nil]
  rfl

/-- What the calls that drain the buffer yield is shown, and what they leave is left. -/
theorem step_convert_of_drains (c : Converter) {chunk : Text} {calls : List Buffer.Step}
    (h : Buffer.Drains (c.stream.buffer ++ chunk) calls) :
    let tokens := Buffer.tokens (Buffer.run (c.stream.buffer ++ chunk) calls).1
    (c.step (.convert chunk)).1.html = Html.ofTokens c.settings c.stream.style tokens ∧
      (c.step (.convert chunk)).2 = { c with
        stream := ⟨(Buffer.run (c.stream.buffer ++ chunk) calls).2,
          c.stream.style.afterTokens tokens⟩ } := by
  intro tokens
  have htokens : tokens = (c.packets (.convert chunk)).map Packet.token :=
    h.tokens_eq 0 c.stream.style
  have hleft : (c.step (.convert chunk)).2.stream.buffer
      = (Buffer.run (c.stream.buffer ++ chunk) calls).2 := by
    rw [h.run_eq, (Buffer.drained_eq_readAll _).2]
    rfl
  obtain ⟨hhtml, -, hstyle⟩ := step_convert c chunk
  rw [htokens, ← hleft, ← hstyle]
  exact ⟨hhtml, rfl⟩

/-- It is the same with the calls that take in the end. -/
theorem step_finish_of_finishes (c : Converter) {calls : List Buffer.Step}
    (h : Buffer.Finishes c.stream.buffer calls) :
    let tokens := Buffer.tokens (Buffer.run c.stream.buffer calls).1
    (c.step .finish).1.html = Html.ofTokens c.settings c.stream.style tokens ∧
      (c.step .finish).2 = { c with
        stream := ⟨(Buffer.run c.stream.buffer calls).2, c.stream.style.afterTokens tokens⟩ } := by
  intro tokens
  have htokens : tokens = (c.packets .finish).map Packet.token := h.tokens_eq 0 c.stream.style
  have hleft : (c.step .finish).2.stream.buffer = (Buffer.run c.stream.buffer calls).2 := by
    rw [h.left]
    exact Stream.finish_buffer _ _
  obtain ⟨hhtml, -, hstyle⟩ := step_finish c
  rw [htokens, ← hleft, ← hstyle]
  exact ⟨hhtml, rfl⟩

theorem quiescent_of_stuck {c : Converter} (h : Stuck c.stream.buffer) : Quiescent c where
  waiting := stuck_iff.mp h
  idle := step_convert_nil h
  convert := by
    intro chunk buffer
    obtain ⟨calls, hcalls⟩ := Buffer.exists_drains buffer
    exact ⟨calls, hcalls, hcalls.length_le, step_convert_of_drains c hcalls⟩
  finish := by
    intro buffer
    obtain ⟨calls, hcalls⟩ := Buffer.exists_finishes buffer
    exact ⟨calls, hcalls, hcalls.length_le, step_finish_of_finishes c hcalls, hcalls.takes,
      fun chars => hcalls.eq_esc_of_skipped, hcalls.count_skip_le⟩
  finished := Stream.finish_buffer _ _
  final := step_finish_nil (Stream.finish_buffer _ _)

/-- **A session is quiescent between any two calls.** -/
theorem run_quiescent (settings : Settings) (steps : List Step) :
    Quiescent (run { settings } steps).2 :=
  quiescent_of_stuck (stuck_run (stuck_iff.mpr (Or.inl rfl)) steps)

end Converter

end TerminalMarkup
