/-
A stream of terminal output: what has not been read yet, and the style in force.

The stream knows nothing of settings or HTML.  It turns what arrives into pieces,
each of them complete in itself: text together with the style it is shown in, a
hyperlink, or the mention of an escape character that was given up.  How a piece
is written is a question for later, and no answer to it can change what the stream
does next.
-/
import TerminalMarkup.Sgr
import TerminalMarkup.Token.Reader

namespace TerminalMarkup

/-- What a stream yields. -/
inductive Piece where
  /-- Text in the style that was in force. -/
  | text (style : Style) (chars : Text)
  | hyperlink (url label : Text)
  /-- An escape character was dropped because it introduces nothing. -/
  | strayEscape (ahead : Text)
  /-- An escape character was dropped because its sequence was unfinished at the end. -/
  | unterminated (ahead : Text)
  deriving DecidableEq, Repr

/-- The state of a stream between two arrivals. -/
structure Stream where
  buffer : Text := []
  style : Style := .plain
  deriving DecidableEq, Repr

namespace Stream

/-! ### From tokens to pieces -/

/-- The style after a token. -/
def styleAfter (s : Style) : Token → Style
  | .rendition params => Sgr.apply params s
  | _ => s

/-- The piece that a token yields in a style. -/
def piece? (s : Style) (sighting : Token.Sighting) : Option Piece :=
  match sighting.token with
  | .text chars => some (.text s chars)
  | .hyperlink url label => some (.hyperlink url label)
  | .strayEscape => some (.strayEscape sighting.ahead)
  | .rendition _ => none
  | .control _ => none

/-- `pieces` after the pieces that are done, which are kept in reverse. -/
def piecesOnto (done : List Piece) (s : Style) : List Token.Sighting → List Piece × Style
  | [] => (done.reverse, s)
  | sighting :: rest =>
    piecesOnto ((piece? s sighting).toList ++ done) (styleAfter s sighting.token) rest

/-- The pieces that tokens yield from a style on, and the style after them. -/
def pieces (s : Style) (sightings : List Token.Sighting) : List Piece × Style :=
  piecesOnto [] s sightings

/-! ### Arrivals -/

/-- Reads as much of the buffer as can be read. -/
def advance (s : Stream) : List Piece × Stream :=
  let (sightings, rest) := Token.readAll s.buffer
  let (ps, style) := pieces s.style sightings
  (ps, ⟨rest, style⟩)

/-- The stream after the arrival of a chunk, and the pieces it has completed. -/
def convert (s : Stream) (chunk : Text) : List Piece × Stream :=
  advance { s with buffer := s.buffer ++ chunk }

theorem length_readAll_le (buffer : Text) : (Token.readAll buffer).2.length ≤ buffer.length := by
  unfold Token.readAll
  suffices ∀ done, (Token.readAllOnto done buffer).2.length ≤ buffer.length from this []
  induction hn : buffer.length using Nat.strongRecOn generalizing buffer with
  | ind n ih =>
    intro done
    rw [Token.readAllOnto]
    split
    · rename_i t rest h
      have hlt := hn ▸ Token.length_lt_of_read h
      exact Nat.le_of_lt (Nat.lt_of_le_of_lt (ih _ hlt rest rfl _) hlt)
    · exact Nat.le_of_eq hn

/--
Ends the stream.  An unfinished sequence will not be finished any more: its escape
character is dropped and reading goes on after it, until nothing is left.
-/
def finish (s : Stream) : List Piece × Stream :=
  match _h : advance s with
  | (ps, ⟨[], style⟩) => (ps, ⟨[], style⟩)
  | (ps, ⟨c :: rest, style⟩) =>
    let (more, last) := finish ⟨rest, style⟩
    (ps ++ .unterminated (Token.ahead (c :: rest)) :: more, last)
termination_by s.buffer.length
decreasing_by
  have hbuffer : (Token.readAll s.buffer).2 = c :: rest := by
    have := congrArg (fun r => r.2.buffer) _h
    simpa [advance] using this
  have := length_readAll_le s.buffer
  rw [hbuffer, List.length_cons] at this
  exact this

end Stream

end TerminalMarkup
