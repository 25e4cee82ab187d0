/-
What is printed where there is no terminal.

Control sequences mean something to a terminal only, so they are left out of what
goes to a file or a pipe.  All sequences count here that the standard for terminals
knows: `ESC [`, any parameter characters, any intermediate characters and a final
character.  The sequences that the tokens of a stream may be are a part of them.
-/
import TerminalMarkup.Token.ControlSequence

namespace TerminalMarkup.Command.Plain

open ControlSequence (isIntermediate isFinal)

/-- From the digit zero to the question mark. -/
def isParam (c : CodePoint) : Bool := 0x30 ≤ c.toNat && c.toNat ≤ 0x3f

/-- The text after a control sequence, from the character after the escape character on. -/
def afterSequence? : Text → Option Text
  | '[' :: rest =>
    match (rest.dropWhile isParam).dropWhile isIntermediate with
    | final :: rest => if isFinal final then some rest else none
    | [] => none
  | _ => none

theorem length_afterSequence?_lt {t rest : Text} (h : afterSequence? t = some rest) :
    rest.length < t.length := by
  unfold afterSequence? at h
  split at h
  · rename_i body
    have hparams := (List.dropWhile_sublist isParam (l := body)).length_le
    have hrest := (List.dropWhile_sublist isIntermediate (l := body.dropWhile isParam)).length_le
    split at h
    · rename_i final tail hbody
      split at h
      · simp only [Option.some.injEq] at h
        rw [hbody, List.length_cons] at hrest
        rw [← h, List.length_cons]
        omega
      · simp at h
    · simp at h
  · simp at h

/-- `plain` after the characters that are done, which are kept in reverse. -/
def plainOnto (done : Text) : Text → Text
  | [] => done.reverse
  | c :: rest =>
    match _h : (if c = esc then afterSequence? rest else none) with
    | some rest' => plainOnto done rest'
    | none => plainOnto (c :: done) rest
termination_by t => t.length
decreasing_by
  · split at _h
    · exact Nat.lt_succ_of_lt (length_afterSequence?_lt _h)
    · simp at _h
  · exact Nat.lt_succ_self _

/-- The text without control sequences. -/
def plain (t : Text) : Text := plainOnto [] t

theorem plainOnto_of_not_mem {t : Text} (h : esc ∉ t) (done : Text) :
    plainOnto done t = done.reverse ++ t := by
  induction t generalizing done with
  | nil => simp [plainOnto]
  | cons c rest ih =>
    simp only [List.mem_cons, not_or] at h
    rw [plainOnto]
    split
    · rename_i hseq
      rw [if_neg (Ne.symm h.1)] at hseq
      simp at hseq
    · simp [ih h.2]

/-- A text without escape characters is left as it is. -/
theorem plain_of_not_mem {t : Text} (h : esc ∉ t) : plain t = t := by
  simp [plain, plainOnto_of_not_mem h]

example : plain "a\x1b[1;31mb\x1b[1:2mc\x1b[>0 qd\x1b[5~".toText = "abcd".toText := by
  decide +kernel
example : plain "\x1b[1\nm\x1b[2 1m\x1b]m".toText = "\x1b[1\nm\x1b[2 1m\x1b]m".toText := by
  decide +kernel

end TerminalMarkup.Command.Plain
