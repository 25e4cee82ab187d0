/-
Reading tokens from the front of a buffer.

The buffer holds what has arrived and has not been read.  `read` looks at its
front and commits itself only to what no later input could change: as long as a
sequence may still be completed the answer is `unfinished` and the buffer stays as
it is.  `readAll` goes on until that happens or the buffer is empty; it ends
because every token takes at least one character.
-/
import TerminalMarkup.Token.Basic
import TerminalMarkup.Token.ControlSequence
import TerminalMarkup.Token.Hyperlink

namespace TerminalMarkup

/-- The token that a control sequence is. -/
def ControlSequence.token (s : ControlSequence) : Token :=
  if s.isRendition then .rendition s.params else .control s.params

/-- The token that a hyperlink is. -/
def Hyperlink.token (l : Hyperlink) : Token := .hyperlink l.url l.label

namespace Token

/-- Any character but the escape character. -/
def isOrdinary (c : CodePoint) : Bool := c != esc

/-- The reading of a buffer that begins with `ESC [`; `body` is what comes after. -/
def readControl (body : Text) : Reading :=
  match ControlSequence.read? body with
  | some (s, rest) => .token s.token rest
  | none =>
    if ControlSequence.isBroken body then .token .strayEscape ('[' :: body) else .unfinished

/-- The reading of a buffer that begins with `ESC ] 8 ;`; `body` is what comes after.  The grammar
is consulted only when both terminators are there. -/
def readHyperlink (body : Text) : Reading :=
  let stray := .token .strayEscape (.scalar ']' :: Hyperlink.opening ++ body)
  match Terminator.search body with
  | .missing => .unfinished
  | .barred => stray
  | .found label =>
    match Terminator.search label with
    | .missing => .unfinished
    | .barred => stray
    | .found _ =>
      match Hyperlink.read? body with
      | some (l, rest) => .token l.token rest
      | none => stray

/-- The reading of a buffer that begins with `ESC ]`; `body` is what comes after. -/
def readCommand (body : Text) : Reading :=
  match body with
  | [] => .unfinished
  | [_] => .unfinished
  | '8' :: ';' :: rest => readHyperlink rest
  | body => .token .strayEscape (']' :: body)

/-- The reading of a buffer that begins with the escape character.  A character set designation
is three characters long whatever its third character is. -/
def readEscape (rest : Text) : Reading :=
  match rest with
  | [] => .unfinished
  | [_] => .unfinished
  | '[' :: body => readControl body
  | ']' :: body => readCommand body
  | '(' :: _ :: rest => .token (.control []) rest
  | rest => .token .strayEscape rest

/-- The reading of a buffer. -/
def read : Text → Reading
  | [] => .finished
  | c :: rest =>
    if c = esc then readEscape rest
    else .token (.text (c :: rest.takeWhile isOrdinary)) (rest.dropWhile isOrdinary)

/-! ### Every token takes at least one character -/

theorem readControl_le {body rest : Text} {t : Token} (h : readControl body = .token t rest) :
    rest.length ≤ body.length + 1 := by
  unfold readControl at h
  split at h
  · rename_i s tail hs
    simp only [Reading.token.injEq] at h
    have := congrArg List.length (ControlSequence.eq_append_of_read? hs)
    simp only [List.length_append] at this
    rw [← h.2]
    omega
  · split at h
    · simp only [Reading.token.injEq] at h
      simp [← h.2]
    · simp at h

theorem readHyperlink_le {body rest : Text} {t : Token} (h : readHyperlink body = .token t rest) :
    rest.length ≤ body.length + 3 := by
  unfold readHyperlink at h
  dsimp only at h
  repeat' split at h
  all_goals simp only [Reading.token.injEq, reduceCtorEq] at h
  all_goals rw [← h.2]
  · simp [Hyperlink.opening]
  · simp [Hyperlink.opening]
  · rename_i l tail hl
    have := congrArg List.length (Hyperlink.eq_append_of_read? hl)
    simp only [List.length_append] at this
    omega
  · simp [Hyperlink.opening]

theorem readCommand_le {body rest : Text} {t : Token} (h : readCommand body = .token t rest) :
    rest.length ≤ body.length + 1 := by
  unfold readCommand at h
  split at h
  · simp at h
  · simp at h
  · have := readHyperlink_le h
    simpa using this
  · simp only [Reading.token.injEq] at h
    simp [← h.2]

theorem readEscape_le {buffer rest : Text} {t : Token} (h : readEscape buffer = .token t rest) :
    rest.length ≤ buffer.length := by
  unfold readEscape at h
  split at h
  · simp at h
  · simp at h
  · simpa using readControl_le h
  · simpa using readCommand_le h
  · simp only [Reading.token.injEq] at h
    simp only [← h.2, List.length_cons]
    omega
  · simp only [Reading.token.injEq] at h
    simp [← h.2]

/-- Reading a token makes the buffer shorter. -/
theorem length_lt_of_read {buffer rest : Text} {t : Token} (h : read buffer = .token t rest) :
    rest.length < buffer.length := by
  cases buffer with
  | nil => simp [read] at h
  | cons c tail =>
    rw [read] at h
    split at h
    · exact Nat.lt_succ_of_le (readEscape_le h)
    · simp only [Reading.token.injEq] at h
      have := (List.dropWhile_sublist isOrdinary (l := tail)).length_le
      rw [← h.2, List.length_cons]
      omega

/-! ### Reading on -/

/-- A token together with the first characters of the buffer it was read from, for messages. -/
structure Sighting where
  token : Token
  ahead : Text
  deriving DecidableEq, Repr

/-- How many characters of a buffer a message shows. -/
def aheadLength : Nat := 8

/-- The characters of a buffer that a message shows. -/
def ahead (buffer : Text) : Text := buffer.take aheadLength

/-- `readAll` after the tokens that have been read, which are kept in reverse. -/
def readAllOnto (done : List Sighting) (buffer : Text) : List Sighting × Text :=
  match _h : read buffer with
  | .token t rest => readAllOnto (⟨t, ahead buffer⟩ :: done) rest
  | _ => (done.reverse, buffer)
termination_by buffer.length
decreasing_by exact length_lt_of_read _h

/-- The tokens of a buffer, up to its end or to a sequence that is not finished, and what is left
of it then. -/
def readAll (buffer : Text) : List Sighting × Text := readAllOnto [] buffer

theorem readAllOnto_eq (done : List Sighting) (buffer : Text) :
    readAllOnto done buffer = (done.reverse ++ (readAll buffer).1, (readAll buffer).2) := by
  unfold readAll
  induction hn : buffer.length using Nat.strongRecOn generalizing done buffer with
  | ind n ih =>
    rw [readAllOnto, readAllOnto.eq_1 []]
    split
    · rename_i t rest h
      have hlt := hn ▸ length_lt_of_read h
      rw [ih _ hlt (⟨t, ahead buffer⟩ :: done) rest rfl, ih _ hlt [⟨t, ahead buffer⟩] rest rfl]
      simp
    · simp

end Token

end TerminalMarkup
