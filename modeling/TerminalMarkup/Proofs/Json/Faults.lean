/-
An integer is too long to be read only if its digits are there.

Of all that can be wrong with a text, one thing is no fault of its form: an integer with
more digits than are converted.  The count in such a fault is the length of a run of
digits that stands in the text.

To see this the reader is followed down to its numbers.  What every part of it leaves
unread is the end of what it was given, so a run of digits that a later part finds is in
the whole text too.  `Sound` says both at once, about the text before and the result;
it is proved for each part in turn, and for values, items and members together, by
induction on the fuel.
-/
import TerminalMarkup.Json.Reader

namespace TerminalMarkup.Json

open Text

/-! ### Runs of digits -/

/-- There is a run of `n` digits in the text, and that is too many. -/
def HasLongRun (n : Nat) (t : Text) : Prop :=
  ∃ digits, digits <:+: t ∧ digits.length = n ∧ (∀ c ∈ digits, isAsciiDigit c = true) ∧
    Numeral.digitLimit < n

theorem HasLongRun.mono {n : Nat} {t u : Text} (h : HasLongRun n u) (hu : u <:+: t) :
    HasLongRun n t := by
  obtain ⟨digits, hrun, hlength, hdigits, hlong⟩ := h
  exact ⟨digits, hrun.trans hu, hlength, hdigits, hlong⟩

/-! ### Sound results -/

/-- The text that is left is the end of the text before, and an integer in it is too long only if
it has the digits. -/
structure Sound {α : Type} (t : Text) (r : Except Stop (α × Text)) : Prop where
  rest : ∀ a rest, r = .ok (a, rest) → rest <:+ t
  long : ∀ n left, r = .error ⟨.tooManyDigits n, left⟩ → HasLongRun n t

variable {α : Type} {t u : Text}

theorem sound_ok {a : α} {rest : Text} (h : rest <:+ t) : Sound t (.ok (a, rest)) := by
  refine ⟨?_, ?_⟩
  · intro b rest' heq
    cases heq
    exact h
  · intro n left heq
    cases heq

/-- Whether a cause is a fault of form; the one that is not is an integer that is too long. -/
def Cause.isForm : Cause → Bool
  | .tooManyDigits _ => false
  | _ => true

theorem sound_stop {cause : Cause} (h : cause.isForm = true) (left : Text) :
    Sound t (stop cause left : Except Stop (α × Text)) := by
  refine ⟨?_, ?_⟩
  · intro b rest heq
    cases heq
  · intro n place heq
    rw [stop, Except.error.injEq, Stop.mk.injEq] at heq
    rw [heq.1] at h
    cases h

theorem Sound.mono {r : Except Stop (α × Text)} (h : Sound u r) (hu : u <:+ t) : Sound t r :=
  ⟨fun a rest heq => (h.rest a rest heq).trans hu,
    fun n left heq => (h.long n left heq).mono hu.isInfix⟩

theorem Sound.cons {r : Except Stop (α × Text)} (h : Sound u r) (c : CodePoint) :
    Sound (c :: u) r :=
  h.mono (List.suffix_cons c u)

/-- A failure is passed on as it is. -/
theorem Sound.error {β : Type} {r : Except Stop (α × Text)} (h : Sound t r) {e : Stop}
    (heq : r = .error e) : Sound t (.error e : Except Stop (β × Text)) := by
  subst heq
  refine ⟨?_, ?_⟩
  · intro b rest heq
    cases heq
  · intro n left heq
    cases heq
    exact h.long n left rfl

/-- After a success something else reads the rest. -/
theorem Sound.next {β : Type} {r : Except Stop (α × Text)} {r' : Except Stop (β × Text)}
    (h : Sound t r) {a : α} {rest : Text} (heq : r = .ok (a, rest)) (h' : Sound rest r') :
    Sound t r' :=
  h'.mono (h.rest a rest heq)

theorem skipSpace_suffix (t : Text) : skipSpace t <:+ t := List.dropWhile_suffix isSpace

/-- What stands after a character that was looked for stands at the end. -/
theorem suffix_of_skipSpace {c : CodePoint} {rest : Text} (h : skipSpace t = c :: rest) :
    rest <:+ t :=
  (List.suffix_cons c rest).trans (h ▸ skipSpace_suffix t)

/-! ### Strings -/

theorem sound_readPair (high : Nat) (rest : Text) : Sound rest (readPair high rest) := by
  unfold readPair
  split
  · rename_i a b c d next more
    split
    · exact sound_stop rfl _
    · split
      · exact sound_ok ⟨['\\', 'u', a, b, c, d], rfl⟩
      · exact sound_ok List.suffix_rfl
  · exact sound_ok List.suffix_rfl

theorem sound_readUnicode (rest : Text) : Sound rest (readUnicode rest) := by
  unfold readUnicode
  split
  · rename_i a b c d next more
    have hrest : next :: more <:+ a :: b :: c :: d :: next :: more := ⟨[a, b, c, d], rfl⟩
    split
    · exact sound_stop rfl _
    · split
      · exact (sound_readPair _ _).mono hrest
      · exact sound_ok hrest
  · exact sound_stop rfl _

theorem sound_readEscape (opening t : Text) : Sound t (readEscape opening t) := by
  unfold readEscape
  split
  · exact sound_stop rfl _
  · rename_i c rest
    have hrest : rest <:+ c :: rest := List.suffix_cons c rest
    split
    · exact (sound_readUnicode rest).mono hrest
    · split
      · exact sound_ok hrest
      · exact sound_stop rfl _

theorem sound_readChars (opening done t : Text) : Sound t (readChars opening done t) := by
  induction hn : t.length using Nat.strongRecOn generalizing t done with
  | ind n ih =>
      cases t with
      | nil =>
          rw [readChars]
          exact sound_stop rfl _
      | cons c rest =>
          have hrest : rest <:+ c :: rest := List.suffix_cons c rest
          rw [readChars]
          split
          · exact sound_ok hrest
          split
          · have hescape := sound_readEscape opening rest
            split
            · rename_i e heq
              exact (hescape.error heq).cons c
            · rename_i d rest' heq
              have hlt : rest'.length < n := hn ▸ Nat.lt_succ_of_le (length_readEscape_le heq)
              exact (hescape.next heq (ih _ hlt _ _ rfl)).cons c
          split
          · exact sound_stop rfl _
          · exact (ih _ (hn ▸ Nat.lt_succ_self _) _ _ rfl).mono hrest

theorem sound_readString (rest : Text) : Sound rest (readString rest) := sound_readChars _ _ rest

/-! ### Numbers and words -/

theorem prefix_wholeDigits (t : Text) : wholeDigits t <+: t := by
  unfold wholeDigits
  split
  · exact ⟨_, rfl⟩
  · exact List.takeWhile_prefix isAsciiDigit

theorem isAsciiDigit_of_mem_wholeDigits : ∀ c ∈ wholeDigits t, isAsciiDigit c = true := by
  intro c hc
  unfold wholeDigits at hc
  split at hc
  · rw [List.mem_singleton.mp hc]
    rfl
  · exact List.all_eq_true.mp List.all_takeWhile c hc

theorem readFraction_suffix (t : Text) : (readFraction t).2 <:+ t := by
  unfold readFraction
  split
  · rename_i rest
    dsimp only
    split
    · exact List.suffix_rfl
    · exact (List.drop_suffix _ rest).trans (List.suffix_cons _ rest)
  · exact List.suffix_rfl

theorem splitSign_suffix (t : Text) : (Numeral.splitSign t).2 <:+ t := by
  unfold Numeral.splitSign
  split
  · exact List.suffix_cons _ _
  · exact List.suffix_cons _ _
  · exact List.suffix_rfl

theorem readExponent_suffix (t : Text) : (readExponent t).2 <:+ t := by
  unfold readExponent
  split
  · rename_i c rest
    have hbody := (splitSign_suffix rest).trans (List.suffix_cons c rest)
    split
    · dsimp only
      split
      · exact List.suffix_rfl
      · exact (List.drop_suffix _ _).trans hbody
    · exact List.suffix_rfl
  · exact List.suffix_rfl

theorem sound_readNumber (t : Text) : Sound t (readNumber t) := by
  unfold readNumber
  split
  rename_i negative body hsign
  have hbody : body <:+ t := by
    split at hsign
    · cases hsign
      exact List.suffix_cons _ _
    · cases hsign
      exact List.suffix_rfl
  dsimp only
  split
  · exact sound_stop rfl _
  have hfraction := (readFraction_suffix (body.drop (wholeDigits body).length)).trans
    ((List.drop_suffix _ body).trans hbody)
  have hexponent := (readExponent_suffix _).trans hfraction
  split
  · split
    · rename_i hlong
      refine ⟨?_, ?_⟩
      · intro a rest heq
        cases heq
      · intro n left heq
        cases heq
        have hrun := (prefix_wholeDigits body).isInfix.trans hbody.isInfix
        exact ⟨wholeDigits body, hrun, rfl, isAsciiDigit_of_mem_wholeDigits, hlong⟩
    · exact sound_ok hexponent
  · exact sound_ok hexponent

theorem readWord?_suffix {s : Scalar} {rest : Text} (h : readWord? t = some (s, rest)) :
    rest <:+ t := by
  obtain ⟨⟨word, s'⟩, -, hword⟩ := List.exists_of_findSome?_eq_some h
  obtain ⟨rest', hafter, hpair⟩ := Option.map_eq_some_iff.mp hword
  cases hpair
  exact ⟨word, (after?_eq_some.mp hafter).symm⟩

theorem sound_readScalar (t : Text) : Sound t (readScalar t) := by
  unfold readScalar
  split
  · rename_i rest
    refine Sound.cons ?_ _
    split
    · rename_i e heq
      exact (sound_readString rest).error heq
    · rename_i s rest' heq
      exact (sound_readString rest).next heq (sound_ok List.suffix_rfl)
  · split
    · rename_i r hword
      exact sound_ok (readWord?_suffix hword)
    · exact sound_readNumber t

/-! ### Values -/

theorem sound_readName (t : Text) : Sound t (readName t) := by
  unfold readName
  split
  · rename_i rest
    refine Sound.cons ?_ _
    split
    · rename_i e heq
      exact (sound_readString rest).error heq
    · rename_i name rest' heq
      refine (sound_readString rest).next heq ?_
      split
      · rename_i rest'' hcolon
        exact sound_ok (suffix_of_skipSpace hcolon)
      · exact sound_stop rfl _
  · exact sound_stop rfl _

section Values

variable {fuel : Nat}

theorem sound_readValue (hitems : ∀ t, Sound t (readItems fuel t))
    (hmembers : ∀ t, Sound t (readMembers fuel t)) (t : Text) :
    Sound t (readValue (fuel + 1) t) := by
  unfold readValue
  split
  · rename_i rest
    refine Sound.cons ?_ _
    split
    · rename_i rest' hclose
      exact sound_ok (suffix_of_skipSpace hclose)
    · refine Sound.mono ?_ (skipSpace_suffix rest)
      split
      · rename_i e heq
        exact (hitems _).error heq
      · rename_i items rest' heq
        exact (hitems _).next heq (sound_ok List.suffix_rfl)
  · rename_i rest
    refine Sound.cons ?_ _
    split
    · rename_i rest' hclose
      exact sound_ok (suffix_of_skipSpace hclose)
    · refine Sound.mono ?_ (skipSpace_suffix rest)
      split
      · rename_i e heq
        exact (hmembers _).error heq
      · rename_i members rest' heq
        exact (hmembers _).next heq (sound_ok List.suffix_rfl)
  · split
    · rename_i e heq
      exact (sound_readScalar _).error heq
    · rename_i s rest heq
      exact (sound_readScalar _).next heq (sound_ok List.suffix_rfl)

theorem sound_readItems (hvalue : ∀ t, Sound t (readValue fuel t))
    (hitems : ∀ t, Sound t (readItems fuel t)) (t : Text) :
    Sound t (readItems (fuel + 1) t) := by
  unfold readItems
  split
  · rename_i e heq
    exact (hvalue t).error heq
  · rename_i item rest heq
    refine (hvalue t).next heq ?_
    split
    · rename_i rest' hclose
      exact sound_ok (suffix_of_skipSpace hclose)
    · rename_i rest' hcomma
      refine Sound.mono ?_ ((skipSpace_suffix rest').trans (suffix_of_skipSpace hcomma))
      split
      · rename_i e heq
        exact (hitems _).error heq
      · rename_i items rest'' heq
        exact (hitems _).next heq (sound_ok List.suffix_rfl)
    · exact sound_stop rfl _

theorem sound_readMembers (hvalue : ∀ t, Sound t (readValue fuel t))
    (hmembers : ∀ t, Sound t (readMembers fuel t)) (t : Text) :
    Sound t (readMembers (fuel + 1) t) := by
  unfold readMembers
  split
  · rename_i e heq
    exact (sound_readName t).error heq
  · rename_i name rest heq
    refine (sound_readName t).next heq (Sound.mono ?_ (skipSpace_suffix rest))
    split
    · rename_i e heq
      exact (hvalue _).error heq
    · rename_i v rest' heq
      refine (hvalue _).next heq ?_
      split
      · rename_i rest'' hclose
        exact sound_ok (suffix_of_skipSpace hclose)
      · rename_i rest'' hcomma
        refine Sound.mono ?_ ((skipSpace_suffix rest'').trans (suffix_of_skipSpace hcomma))
        split
        · rename_i e heq
          exact (hmembers _).error heq
        · rename_i members more heq
          exact (hmembers _).next heq (sound_ok List.suffix_rfl)
      · exact sound_stop rfl _

end Values

/-- Values, items and members call each other with one unit of fuel less. -/
theorem sound_readValues (fuel : Nat) :
    (∀ t, Sound t (readValue fuel t)) ∧ (∀ t, Sound t (readItems fuel t)) ∧
      ∀ t, Sound t (readMembers fuel t) := by
  induction fuel with
  | zero =>
      have hstop (t : Text) {α : Type} :
          Sound t (stop .expectingValue t : Except Stop (α × Text)) :=
        sound_stop rfl t
      exact ⟨fun t => hstop t, fun t => hstop t, fun t => hstop t⟩
  | succ fuel ih =>
      obtain ⟨hvalue, hitems, hmembers⟩ := ih
      exact ⟨sound_readValue hitems hmembers, sound_readItems hvalue hitems,
        sound_readMembers hvalue hmembers⟩

/-- **An integer that is too long to be read is in the text.** -/
theorem hasLongRun_of_read {n position : Nat} (h : read t = .error ⟨.tooManyDigits n, position⟩) :
    HasLongRun n t := by
  obtain ⟨left, hwhole⟩ : ∃ left, readWhole t = .error ⟨.tooManyDigits n, left⟩ := by
    unfold read at h
    split at h
    · cases h
    · rename_i e heq
      rw [Except.error.injEq, Fault.mk.injEq] at h
      exact ⟨e.left, heq.trans (by rw [← h.1])⟩
  unfold readWhole at hwhole
  split at hwhole
  · cases hwhole
  split at hwhole
  · rename_i e heq
    rw [Except.error.injEq] at hwhole
    rw [hwhole] at heq
    exact (((sound_readValues _).1 _).long n left heq).mono (skipSpace_suffix t).isInfix
  · split at hwhole
    · cases hwhole
    · cases hwhole

end TerminalMarkup.Json
