/-
A stream, one token at a time.

`advance` and `finish` are written for speed: all tokens are read first, then the
pieces are collected in reverse.  The equations here take them apart again.  One
token yields its piece and changes the style, and the rest is the same stream with
a shorter buffer; a stuck buffer is where `advance` stops and where `finish` drops
an escape character and goes on.

From the equations follow the two facts about arrivals.  Reading early and reading
late come to the same state (`advance_append`), and what is left to `finish` does
not depend on whether `advance` came first (`finish_advance`).
-/
import TerminalMarkup.Proofs.Token.Extension
import TerminalMarkup.Stream

namespace TerminalMarkup.Stream

open Token

/-! ### Equations -/

theorem piecesOnto_eq (done : List Piece) (s : Style) (sightings : List Sighting) :
    piecesOnto done s sightings
      = (done.reverse ++ (pieces s sightings).1, (pieces s sightings).2) := by
  unfold pieces
  induction sightings generalizing done s with
  | nil => simp [piecesOnto]
  | cons sighting rest ih =>
      rw [piecesOnto, piecesOnto, ih, ih ((piece? s sighting).toList ++ [])]
      cases piece? s sighting <;> simp

@[simp] theorem pieces_nil (s : Style) : pieces s [] = ([], s) := rfl

theorem pieces_cons (s : Style) (sighting : Sighting) (rest : List Sighting) :
    pieces s (sighting :: rest) =
      ((piece? s sighting).toList ++ (pieces (styleAfter s sighting.token) rest).1,
        (pieces (styleAfter s sighting.token) rest).2) := by
  rw [pieces, piecesOnto, piecesOnto_eq]
  cases piece? s sighting <;> simp

theorem advance_of_stuck {buffer : Text} (h : Stuck buffer) (s : Style) :
    advance ⟨buffer, s⟩ = ([], ⟨buffer, s⟩) := by
  simp only [advance, readAll_of_stuck h, pieces_nil]

theorem advance_of_token {buffer rest : Text} {t : Token} (h : read buffer = .token t rest)
    (s : Style) :
    advance ⟨buffer, s⟩ =
      ((piece? s ⟨t, ahead buffer⟩).toList ++ (advance ⟨rest, styleAfter s t⟩).1,
        (advance ⟨rest, styleAfter s t⟩).2) := by
  simp only [advance, readAll_of_token h, pieces_cons]

@[simp] theorem finish_nil (s : Style) : finish ⟨[], s⟩ = ([], ⟨[], s⟩) := by
  have hadvance : advance ⟨[], s⟩ = ([], ⟨[], s⟩) := advance_of_stuck (by simp [Stuck]) s
  rw [finish, hadvance]

theorem finish_of_unfinished {tail : Text} (h : read (esc :: tail) = .unfinished) (s : Style) :
    finish ⟨esc :: tail, s⟩ =
      (.unterminated (ahead (esc :: tail)) :: (finish ⟨tail, s⟩).1, (finish ⟨tail, s⟩).2) := by
  have hadvance := advance_of_stuck (fun t rest => by simp [h] : Stuck (esc :: tail)) s
  rw [finish, hadvance]
  rfl

theorem finish_of_token {buffer rest : Text} {t : Token} (h : read buffer = .token t rest)
    (s : Style) :
    finish ⟨buffer, s⟩ =
      ((piece? s ⟨t, ahead buffer⟩).toList ++ (finish ⟨rest, styleAfter s t⟩).1,
        (finish ⟨rest, styleAfter s t⟩).2) := by
  rw [finish, finish, advance_of_token h]
  obtain ⟨ps, left, style⟩ := advance ⟨rest, styleAfter s t⟩
  cases left with
  | nil => rfl
  | cons c left => simp

/-! ### Arrivals -/

theorem length_advance_le (s : Stream) : (advance s).2.buffer.length ≤ s.buffer.length := by
  simpa [advance] using length_readAll_le s.buffer

/-- A stream that has been advanced is stuck. -/
theorem stuck_advance (s : Stream) : Stuck (advance s).2.buffer := by
  have hbuffer : (advance s).2.buffer = (readAll s.buffer).2 := by simp [advance]
  rw [hbuffer]
  exact stuck_readAll s.buffer

/-- Advancing first changes nothing about the end. -/
theorem finish_advance (s : Stream) :
    (advance s).1 ++ (finish (advance s).2).1 = (finish s).1 ∧
      (finish (advance s).2).2 = (finish s).2 := by
  obtain ⟨buffer, style⟩ := s
  induction buffer using read_induction generalizing style with
  | stuck buffer h =>
      rw [advance_of_stuck h]
      exact ⟨rfl, rfl⟩
  | token buffer t rest h ih =>
      obtain ⟨hpieces, hstream⟩ := ih (styleAfter style t)
      rw [advance_of_token h, finish_of_token h]
      refine ⟨?_, hstream⟩
      rw [← hpieces, List.append_assoc]

/-- Advancing before more arrives leaves the stream that advancing after it leaves. -/
theorem advance_append (buffer more : Text) (s : Style) :
    (advance ⟨(advance ⟨buffer, s⟩).2.buffer ++ more, (advance ⟨buffer, s⟩).2.style⟩).2
      = (advance ⟨buffer ++ more, s⟩).2 := by
  induction buffer using read_induction generalizing s with
  | stuck buffer h => rw [advance_of_stuck h]
  | token buffer t rest h ih =>
      rw [advance_of_token h, ih]
      rcases read_append h more with hsame | ⟨run, tail, rfl, rfl, hmore, hgrown⟩
      · rw [advance_of_token hsame]
      · rw [advance_of_token hgrown, List.nil_append, advance_of_token hmore]
        rfl

/-- However a text is cut, its arrival leaves the same stream. -/
theorem convert_append (s : Stream) (chunk more : Text) :
    ((s.convert chunk).2.convert more).2 = (s.convert (chunk ++ more)).2 := by
  unfold convert
  rw [← List.append_assoc]
  exact advance_append (s.buffer ++ chunk) more s.style

end TerminalMarkup.Stream
