/-
Feeding and reading in any order.

A buffer may be fed and read in turn, with as much or as little reading between two
arrivals as one likes.  What is read must not depend on it.  The reason is
`Token.read_append`: a token that was read early is the token that the whole input
has at this place, and only a text token may have been cut short, in which case the
rest of it is the next token.

So the induction is on the calls, and what it carries is that the tokens read so
far, with those that the buffer and everything still to be fed would yield, are the
tokens of the whole input once text tokens that touch are joined.
-/
import TerminalMarkup.Proofs.Token.Extension
import TerminalMarkup.Token.Buffer
import TerminalMarkup.Token.Whole

namespace TerminalMarkup

open Text

namespace Token

/-! ### Joining text -/

@[simp] theorem joined_nil : joined [] = [] := rfl

@[simp] theorem joined_cons (t : Token) (ts : List Token) :
    joined (t :: ts) = joinOnto t (joined ts) := rfl

/-- Text that was cut is the same when it is joined. -/
theorem joinOnto_text_append (a b : Text) (ts : List Token) :
    joinOnto (.text (a ++ b)) ts = joinOnto (.text a) (joinOnto (.text b) ts) := by
  match ts with
  | [] => rfl
  | .text c :: rest => simp [joinOnto]
  | .strayEscape :: rest => rfl
  | .rendition params :: rest => rfl
  | .control params :: rest => rfl
  | .hyperlink url label :: rest => rfl

/-- The token is text. -/
def IsText (t : Token) : Prop := ∃ chars, t = .text chars

theorem joinOnto_eq_cons {t : Token} {ts : List Token}
    (h : t.IsText → ∀ u ∈ ts.head?, ¬u.IsText) : joinOnto t ts = t :: ts := by
  unfold joinOnto
  split
  · rename_i a b rest
    exact absurd ⟨b, rfl⟩ (h ⟨a, rfl⟩ (.text b) (by simp))
  · rfl

/-- Text is followed by something else. -/
theorem not_isText_of_avoids {buffer rest : Text} {t : Token} (h : read buffer = .token t rest)
    (havoids : Avoids isOrdinary buffer) : ¬t.IsText := by
  rintro ⟨chars, rfl⟩
  rcases read_cases h with ⟨run, hne, hrun, -, rfl, -⟩ | ⟨tail, rfl, htail⟩
  · cases run with
    | nil => exact hne rfl
    | cons c run =>
        have hc := havoids c (by simp)
        rw [hrun c (by simp)] at hc
        exact Bool.noConfusion hc
  · obtain ⟨word, hspells, hword⟩ := spells_of_readEscape htail
    obtain ⟨rfl, hne, hchars⟩ := hspells.of_text
    cases word with
    | nil => exact hne rfl
    | cons c word =>
        rw [List.cons_append, List.cons.injEq] at hword
        exact hchars c (by simp) hword.1.symm

end Token

namespace Buffer

open Token

/-! ### Calls -/

@[simp] theorem run_nil (buffer : Text) : run buffer [] = ([], buffer) := rfl

@[simp] theorem run_cons (buffer : Text) (s : Step) (rest : List Step) :
    run buffer (s :: rest) =
      ((step buffer s).1 :: (run (step buffer s).2 rest).1, (run (step buffer s).2 rest).2) := rfl

theorem step_next_of_token {buffer rest : Text} {t : Token} (h : read buffer = .token t rest) :
    step buffer .next = (.reading (.token t rest), rest) := by
  simp only [step, h, after]

theorem step_next_of_stuck {buffer : Text} (h : Stuck buffer) :
    step buffer .next = (.reading (read buffer), buffer) := by
  cases hread : read buffer with
  | token t rest => exact absurd hread (h t rest)
  | finished => simp only [step, hread, after]
  | unfinished => simp only [step, hread, after]

theorem step_next_of_unfinished {buffer : Text} (h : read buffer = .unfinished) :
    step buffer .next = (.reading .unfinished, buffer) := by
  simp only [step, h, after]

/-- The token that a call has given back. -/
def Answer.token? : Answer → Option Token
  | .reading (.token t _) => some t
  | _ => none

/-- The tokens among the answers. -/
def tokens (answers : List Answer) : List Token := answers.filterMap Answer.token?

@[simp] theorem tokens_nil : tokens [] = [] := rfl

@[simp] theorem tokens_done (answers : List Answer) : tokens (.done :: answers) = tokens answers :=
  rfl

@[simp] theorem tokens_token (t : Token) (rest : Text) (answers : List Answer) :
    tokens (.reading (.token t rest) :: answers) = t :: tokens answers := rfl

theorem tokens_stuck {buffer : Text} (h : Stuck buffer) (answers : List Answer) :
    tokens (.reading (read buffer) :: answers) = tokens answers := by
  cases hread : read buffer with
  | token t rest => exact absurd hread (h t rest)
  | finished => rfl
  | unfinished => rfl

@[simp] theorem tokens_append (a b : List Answer) : tokens (a ++ b) = tokens a ++ tokens b :=
  List.filterMap_append

/-- Whether a call feeds or reads, and neither skips nor forgets anything. -/
def Step.isOrderly : Step → Bool
  | .feed _ => true
  | .next => true
  | .skip => false
  | .reset => false

/-- Everything that is fed, in order. -/
def fed : List Step → Text
  | [] => []
  | .feed chars :: rest => chars ++ fed rest
  | _ :: rest => fed rest

/-- Reads until there is no token: the answers, the one without a token among them, and the buffer
after them. -/
def drain (buffer : Text) : List Answer × Text :=
  match _h : read buffer with
  | .token t rest => (.reading (.token t rest) :: (drain rest).1, (drain rest).2)
  | r => ([.reading r], buffer)
termination_by buffer.length
decreasing_by all_goals exact length_lt_of_read _h

theorem drain_of_token {buffer rest : Text} {t : Token} (h : read buffer = .token t rest) :
    drain buffer = (.reading (.token t rest) :: (drain rest).1, (drain rest).2) := by
  rw [drain]
  split
  · rename_i t' rest' h'
    rw [h, Reading.token.injEq] at h'
    obtain ⟨rfl, rfl⟩ := h'
    rfl
  · rename_i hnot
    exact absurd h (hnot t rest)

theorem drain_of_stuck {buffer : Text} (h : Stuck buffer) :
    drain buffer = ([.reading (read buffer)], buffer) := by
  rw [drain]
  split
  · rename_i t rest h'
    exact absurd h' (h t rest)
  · rfl

/-- Draining is nothing but reading again and again. -/
theorem drain_eq_run (buffer : Text) :
    ∃ n, drain buffer = run buffer (List.replicate (n + 1) .next) := by
  induction buffer using read_induction with
  | stuck buffer h =>
      refine ⟨0, ?_⟩
      rw [drain_of_stuck h, List.replicate_one, run_cons, step_next_of_stuck h, run_nil]
  | token buffer t rest h ih =>
      obtain ⟨n, hn⟩ := ih
      refine ⟨n + 1, ?_⟩
      rw [drain_of_token h, List.replicate_succ, run_cons, step_next_of_token h, hn]

/-- A drain ends with the answer without a token that the buffer it leaves keeps giving. -/
theorem drain_last (buffer : Text) :
    (drain buffer).1.getLast? = some (.reading (read (drain buffer).2)) ∧
      Stuck (drain buffer).2 := by
  induction buffer using read_induction with
  | stuck buffer h =>
      rw [drain_of_stuck h]
      exact ⟨rfl, h⟩
  | token buffer t rest h ih =>
      rw [drain_of_token h]
      refine ⟨?_, ih.2⟩
      rw [List.getLast?_cons, ih.1]
      rfl

/-! ### The tokens of a drain -/

/-- The tokens that a drain yields. -/
def drained (buffer : Text) : List Token := tokens (drain buffer).1

theorem drained_of_token {buffer rest : Text} {t : Token} (h : read buffer = .token t rest) :
    drained buffer = t :: drained rest := by
  rw [drained, drain_of_token h, tokens_token, drained]

theorem drained_of_stuck {buffer : Text} (h : Stuck buffer) : drained buffer = [] := by
  rw [drained, drain_of_stuck h, tokens_stuck h, tokens_nil]

/-- The tokens of a drain are those that the converter reads. -/
theorem drained_eq_readAll (buffer : Text) :
    drained buffer = (readAll buffer).1.map Sighting.token ∧
      (drain buffer).2 = (readAll buffer).2 := by
  induction buffer using read_induction with
  | stuck buffer h =>
      rw [drained_of_stuck h, drain_of_stuck h, readAll_of_stuck h]
      exact ⟨rfl, rfl⟩
  | token buffer t rest h ih =>
      rw [drained_of_token h, drain_of_token h, readAll_of_token h, ih.1, ih.2]
      exact ⟨rfl, rfl⟩

/-- A drain cuts no text, so there is nothing to join. -/
theorem joined_drained (buffer : Text) : joined (drained buffer) = drained buffer := by
  induction buffer using read_induction with
  | stuck buffer h => rw [drained_of_stuck h, joined_nil]
  | token buffer t rest h ih =>
      rw [drained_of_token h, joined_cons, ih]
      refine joinOnto_eq_cons ?_
      rintro ⟨chars, rfl⟩ u hu
      have hrest : Avoids isOrdinary rest := by
        rcases read_cases h with ⟨-, -, -, hrest, -⟩ | ⟨tail, rfl, htail⟩
        · exact hrest
        · exact absurd ⟨chars, rfl⟩ (not_isText_of_avoids h (.cons (by decide) tail))
      rcases token_or_stuck rest with ⟨u', rest', h'⟩ | hstuck
      · rw [drained_of_token h', List.head?_cons, Option.mem_some_iff] at hu
        exact hu ▸ not_isText_of_avoids h' hrest
      · simp [drained_of_stuck hstuck] at hu

/-! ### Reading early -/

/-- A token that is read before more is fed is the one that is read after it, but for text. -/
theorem drained_append {buffer rest : Text} {t : Token} (h : read buffer = .token t rest)
    (more : Text) :
    joined (drained (buffer ++ more)) = joined (t :: drained (rest ++ more)) ∧
      (drain (buffer ++ more)).2 = (drain (rest ++ more)).2 := by
  rcases read_append h more with hsame | ⟨run, tail, rfl, rfl, hmore, hgrown⟩
  · rw [drained_of_token hsame, drain_of_token hsame]
    exact ⟨rfl, rfl⟩
  · rw [List.nil_append, drained_of_token hgrown, drained_of_token hmore, drain_of_token hgrown,
      drain_of_token hmore]
    refine ⟨?_, rfl⟩
    simp only [joined_cons]
    exact joinOnto_text_append buffer run _

/-- The step of the induction below is one call; between two calls nothing is lost. -/
theorem drained_run (steps : List Step) (h : ∀ s ∈ steps, s.isOrderly = true) :
    ∀ buffer : Text,
      joined (tokens (run buffer steps).1 ++ drained (run buffer steps).2)
          = joined (drained (buffer ++ fed steps)) ∧
        (drain (run buffer steps).2).2 = (drain (buffer ++ fed steps)).2 := by
  induction steps with
  | nil =>
      intro buffer
      simp [fed]
  | cons s rest ih =>
      intro buffer
      have ih := ih fun s hs => h s (by simp [hs])
      cases s with
      | feed chars =>
          have := ih (buffer ++ chars)
          simpa [step, fed] using this
      | next =>
          rcases token_or_stuck buffer with ⟨t, tail, hread⟩ | hstuck
          · obtain ⟨htokens, hleft⟩ := ih tail
            obtain ⟨hearly, hsame⟩ := drained_append hread (fed rest)
            rw [run_cons, step_next_of_token hread]
            refine ⟨?_, hleft.trans hsame.symm⟩
            rw [tokens_token, List.cons_append, joined_cons, htokens, ← joined_cons]
            exact hearly.symm
          · obtain ⟨htokens, hleft⟩ := ih buffer
            rw [run_cons, step_next_of_stuck hstuck]
            refine ⟨?_, hleft⟩
            rw [tokens_stuck hstuck]
            exact htokens
      | skip => exact absurd (h .skip (by simp)) (by decide)
      | reset => exact absurd (h .reset (by simp)) (by decide)

/--
**It does not matter when a buffer is read.**  Feeding and reading in any order and
then draining yields the tokens of draining everything at once, text that was cut
being joined again, leaves the same buffer, and ends with the same answer.
-/
theorem run_drain (steps : List Step) (h : ∀ s ∈ steps, s.isOrderly = true) :
    let (answers, buffer) := run [] steps
    let (_, whole) := run [] [.feed (fed steps)]
    joined (tokens (answers ++ (drain buffer).1)) = tokens (drain whole).1 ∧
      (drain buffer).2 = (drain whole).2 ∧
      (drain buffer).1.getLast? = (drain whole).1.getLast? := by
  obtain ⟨htokens, hleft⟩ := drained_run steps h []
  have hwhole : (run [] [.feed (fed steps)]).2 = fed steps := by simp [step]
  simp only [List.nil_append] at htokens hleft
  simp only [hwhole]
  refine ⟨?_, hleft, ?_⟩
  · rw [tokens_append]
    exact htokens.trans (joined_drained _)
  · rw [(drain_last _).1, (drain_last _).1, hleft]

/-- Reading too early, in the middle of a text and of a sequence. -/
theorem run_drain_too_early :
    let steps : List Step :=
      [.feed ['a'], .next, .feed ['b', esc, '['], .next, .next, .feed ['1', 'm', 'c'], .next]
    (∀ s ∈ steps, s.isOrderly = true) ∧
      joined (tokens ((run [] steps).1 ++ (drain (run [] steps).2).1))
        = [.text ['a', 'b'], .rendition ['1'], .text ['c']] := by
  intro steps
  have horderly : ∀ s ∈ steps, s.isOrderly = true := by decide
  have hwhole : tokens (drain (run [] [.feed (fed steps)]).2).1
      = [.text ['a', 'b'], .rendition ['1'], .text ['c']] := by
    decide +kernel
  exact ⟨horderly, (run_drain steps horderly).1.trans hwhole⟩

end Buffer

end TerminalMarkup
