/-
Which texts are printed as they are.

`Plain.plain` goes through a text from the left and leaves out every control sequence that
it meets.  A control sequence is a word whose parts are of different classes, so there is one
at most that a text begins with (`afterSequence?_eq_some_iff`), and one that is met is found.
A text is therefore left as it is exactly if there is no control sequence anywhere in it.
-/
import TerminalMarkup.Command.Plain
import TerminalMarkup.Proofs.Text.Utf8
import TerminalMarkup.Proofs.Token.Words

namespace TerminalMarkup.Command.Plain

open ControlSequence (isIntermediate isFinal)
open Text

/-! ### Control sequences -/

/-- The word is a control sequence: `ESC [`, parameter characters, intermediate characters and a
final character. -/
def IsSequence (word : Text) : Prop :=
  ∃ params between final, word = esc :: '[' :: (params ++ (between ++ [final])) ∧
    (∀ c ∈ params, isParam c = true) ∧ (∀ c ∈ between, isIntermediate c = true) ∧
    isFinal final = true

theorem isParam_of_isIntermediate {c : CodePoint} (h : isIntermediate c = true) :
    isParam c = false := by
  simp only [isIntermediate, isParam, Bool.and_eq_true, decide_eq_true_eq, Bool.and_eq_false_iff,
    decide_eq_false_iff_not] at h ⊢
  omega

theorem classes_of_isFinal {c : CodePoint} (h : isFinal c = true) :
    isParam c = false ∧ isIntermediate c = false := by
  simp only [isFinal, isIntermediate, isParam, Bool.and_eq_true, decide_eq_true_eq,
    Bool.and_eq_false_iff, decide_eq_false_iff_not] at h ⊢
  omega

/-- A control sequence is found if a text begins with one, and ends where it ends. -/
theorem afterSequence?_eq_some_iff {t rest : Text} :
    afterSequence? t = some rest ↔ ∃ word, IsSequence word ∧ esc :: t = word ++ rest := by
  constructor
  · intro h
    unfold afterSequence? at h
    split at h
    · rename_i body
      split at h
      · rename_i final back hback
        split at h
        · rename_i hfinal
          cases h
          refine ⟨_, ⟨body.takeWhile isParam, (body.dropWhile isParam).takeWhile isIntermediate,
            final, rfl, fun c hc => mem_takeWhile hc, fun c hc => mem_takeWhile hc, hfinal⟩, ?_⟩
          have hbody : body = body.takeWhile isParam ++
              ((body.dropWhile isParam).takeWhile isIntermediate ++ final :: rest) := by
            rw [← hback, List.takeWhile_append_dropWhile, List.takeWhile_append_dropWhile]
          simpa using hbody
        · cases h
      · cases h
    · cases h
  · intro h
    obtain ⟨word, ⟨params, between, final, rfl, hparams, hbetween, hfinal⟩, ht⟩ := h
    obtain ⟨hparam, hintermediate⟩ := classes_of_isFinal hfinal
    have hbody : t = .scalar '[' :: (params ++ (between ++ final :: rest)) := by simpa using ht
    have hfirst : Avoids isParam (between ++ final :: rest) :=
      .append (fun c hc => isParam_of_isIntermediate (hbetween c hc)) (.cons hparam rest)
    have hsecond : Avoids isIntermediate (final :: rest) := .cons hintermediate rest
    rw [hbody, afterSequence?, dropWhile_run hparams hfirst, dropWhile_run hbetween hsecond]
    exact if_pos hfinal

/-- Somewhere in the text is a control sequence. -/
def HasSequence (t : Text) : Prop :=
  ∃ front word back, t = front ++ (word ++ back) ∧ IsSequence word

theorem not_hasSequence_nil : ¬HasSequence [] := by
  intro h
  obtain ⟨front, word, back, hnil, params, between, final, rfl, -⟩ := h
  simp at hnil

theorem hasSequence_cons_iff {c : CodePoint} {rest : Text} :
    HasSequence (c :: rest) ↔
      (c = esc ∧ ∃ rest', afterSequence? rest = some rest') ∨ HasSequence rest := by
  constructor
  · intro h
    obtain ⟨front, word, back, ht, hword⟩ := h
    cases front with
    | nil =>
        have hword' := hword
        obtain ⟨params, between, final, rfl, -⟩ := hword'
        obtain ⟨rfl, -⟩ := List.cons.inj ht
        exact Or.inl ⟨rfl, back, afterSequence?_eq_some_iff.mpr ⟨_, hword, ht⟩⟩
    | cons f front =>
        obtain ⟨-, hrest⟩ := List.cons.inj ht
        exact Or.inr ⟨front, word, back, hrest, hword⟩
  · intro h
    rcases h with ⟨rfl, rest', hrest⟩ | ⟨front, word, back, rfl, hword⟩
    · obtain ⟨word, hword, ht⟩ := afterSequence?_eq_some_iff.mp hrest
      exact ⟨[], word, rest', ht, hword⟩
    · exact ⟨c :: front, word, back, rfl, hword⟩

/-- Without an escape character there is none. -/
theorem not_hasSequence_of_not_mem {t : Text} (h : esc ∉ t) : ¬HasSequence t := by
  intro hsequence
  obtain ⟨front, word, back, rfl, params, between, final, rfl, -⟩ := hsequence
  exact h (by simp)

/-- A text has the control sequences that are anywhere in it. -/
theorem HasSequence.mono {s t : Text} (h : HasSequence s) (hpart : s <:+: t) :
    HasSequence t := by
  obtain ⟨front, word, back, rfl, hword⟩ := h
  obtain ⟨before, after, rfl⟩ := hpart
  exact ⟨before ++ front, word, back ++ after, by simp, hword⟩

/-! ### Leaving them out -/

theorem plain_nil : plain [] = [] := plain_of_not_mem List.not_mem_nil

theorem plainOnto_of_sequence {rest rest' : Text} (h : afterSequence? rest = some rest')
    (done : Text) : plainOnto done (esc :: rest) = plainOnto done rest' := by
  rw [plainOnto]
  split
  · rename_i found hfound
    rw [if_pos rfl, h] at hfound
    cases hfound
    rfl
  · rename_i hnone
    rw [if_pos rfl, h] at hnone
    cases hnone

theorem plainOnto_of_no_sequence {c : CodePoint} {rest : Text}
    (h : c = esc → afterSequence? rest = none) (done : Text) :
    plainOnto done (c :: rest) = plainOnto (c :: done) rest := by
  have hnone : (if c = esc then afterSequence? rest else none) = none := by
    split
    · rename_i hc
      exact h hc
    · rfl
  rw [plainOnto]
  split
  · rename_i found hfound
    cases hnone.symm.trans hfound
  · rfl

/-- A text begins with a control sequence, or with a character that is kept. -/
theorem sequence_or_not (c : CodePoint) (rest : Text) :
    (c = esc ∧ ∃ rest', afterSequence? rest = some rest') ∨
      (c = esc → afterSequence? rest = none) := by
  by_cases hc : c = esc
  · cases hrest : afterSequence? rest with
    | none => exact Or.inr fun _ => rfl
    | some rest' => exact Or.inl ⟨hc, rest', rfl⟩
  · exact Or.inr fun h => absurd h hc

/-- What is done is kept. -/
theorem plainOnto_eq (done t : Text) : plainOnto done t = done.reverse ++ plain t := by
  induction hn : t.length using Nat.strongRecOn generalizing done t with
  | ind n ih =>
      cases t with
      | nil => rw [plain_nil, plainOnto, List.append_nil]
      | cons c rest =>
          subst hn
          rcases sequence_or_not c rest with ⟨rfl, rest', hrest⟩ | hno
          · have hlt : rest'.length < (esc :: rest).length :=
              Nat.lt_succ_of_lt (length_afterSequence?_lt hrest)
            rw [plainOnto_of_sequence hrest, plain, plainOnto_of_sequence hrest]
            exact ih _ hlt done rest' rfl
          · have hlt : rest.length < (c :: rest).length := Nat.lt_succ_self _
            rw [plainOnto_of_no_sequence hno, plain, plainOnto_of_no_sequence hno,
              ih _ hlt (c :: done) rest rfl, ih _ hlt [c] rest rfl]
            simp

theorem plain_of_sequence {rest rest' : Text} (h : afterSequence? rest = some rest') :
    plain (esc :: rest) = plain rest' := plainOnto_of_sequence h []

theorem plain_of_no_sequence {c : CodePoint} {rest : Text}
    (h : c = esc → afterSequence? rest = none) :
    plain (c :: rest) = c :: plain rest := by
  rw [plain, plainOnto_of_no_sequence h, plainOnto_eq]
  rfl

theorem length_plain_le (t : Text) : (plain t).length ≤ t.length := by
  induction hn : t.length using Nat.strongRecOn generalizing t with
  | ind n ih =>
      subst hn
      cases t with
      | nil => exact Nat.le_of_eq (congrArg List.length plain_nil)
      | cons c rest =>
          rcases sequence_or_not c rest with ⟨rfl, rest', hrest⟩ | hno
          · have hlt : rest'.length < (esc :: rest).length :=
              Nat.lt_succ_of_lt (length_afterSequence?_lt hrest)
            rw [plain_of_sequence hrest]
            exact Nat.le_trans (ih _ hlt rest' rfl) (Nat.le_of_lt hlt)
          · rw [plain_of_no_sequence hno, List.length_cons, List.length_cons]
            exact Nat.succ_le_succ (ih _ (Nat.lt_succ_self _) rest rfl)

/-- **A text is printed as it is exactly if there is no control sequence in it.** -/
theorem plain_eq_self_iff (t : Text) : plain t = t ↔ ¬HasSequence t := by
  induction t with
  | nil => exact iff_of_true plain_nil not_hasSequence_nil
  | cons c rest ih =>
      rw [hasSequence_cons_iff, not_or]
      rcases sequence_or_not c rest with ⟨rfl, rest', hrest⟩ | hno
      · -- What is left out makes the text shorter.
        refine iff_of_false ?_ fun h => h.1 ⟨rfl, rest', hrest⟩
        intro hsame
        have hlength := congrArg List.length hsame
        have hlt := length_afterSequence?_lt hrest
        have hle := length_plain_le rest'
        rw [plain_of_sequence hrest, List.length_cons] at hlength
        omega
      · have hkept : ¬(c = esc ∧ ∃ rest', afterSequence? rest = some rest') := by
          intro h
          obtain ⟨hc, rest', hrest⟩ := h
          cases (hno hc).symm.trans hrest
        rw [plain_of_no_sequence hno, List.cons.injEq, ih]
        exact ⟨fun h => ⟨hkept, h.2⟩, fun h => ⟨rfl, h.2⟩⟩

/-! ### Surrogates -/

/-- A control sequence is made of characters. -/
theorem isScalar_of_mem_sequence {word : Text} (h : IsSequence word) :
    ∀ c ∈ word, c.isScalar = true := by
  obtain ⟨params, between, final, rfl, hparams, hbetween, hfinal⟩ := h
  have hscalar : ∀ c, isParam c = true ∨ isIntermediate c = true ∨ isFinal c = true →
      c.isScalar = true := by
    intro c hc
    refine CodePoint.isScalar_of_toNat_lt ?_
    simp only [isParam, isIntermediate, isFinal, Bool.and_eq_true, decide_eq_true_eq] at hc
    omega
  intro c hc
  simp only [List.mem_cons, List.mem_append, List.not_mem_nil, or_false] at hc
  rcases hc with rfl | rfl | hc | hc | rfl
  · rfl
  · rfl
  · exact hscalar c (Or.inl (hparams c hc))
  · exact hscalar c (Or.inr (Or.inl (hbetween c hc)))
  · exact hscalar c (Or.inr (Or.inr hfinal))

theorem mem_plainOnto_iff {c : CodePoint} (hc : c.isScalar = false) (done t : Text) :
    c ∈ plainOnto done t ↔ c ∈ done ∨ c ∈ t := by
  induction hn : t.length using Nat.strongRecOn generalizing done t with
  | ind n ih =>
      cases t with
      | nil => simp [plainOnto]
      | cons d rest =>
          rcases sequence_or_not d rest with ⟨rfl, rest', hrest⟩ | hnone
          · have hlt : rest'.length < n := hn ▸ Nat.lt_succ_of_lt (length_afterSequence?_lt hrest)
            obtain ⟨word, hword, ht⟩ := afterSequence?_eq_some_iff.mp hrest
            have hnot : c ∉ word := by
              intro hmem
              rw [isScalar_of_mem_sequence hword c hmem] at hc
              cases hc
            rw [plainOnto_of_sequence hrest, ih _ hlt _ _ rfl, ht, List.mem_append,
              or_iff_right hnot]
          · rw [plainOnto_of_no_sequence hnone, ih _ (hn ▸ Nat.lt_succ_self _) _ _ rfl,
              List.mem_cons, List.mem_cons, or_assoc, or_left_comm]

/-- **What is left of a text has bytes exactly if the text has.** -/
theorem isSome_encode?_plain (t : Text) :
    (Utf8.encode? (plain t)).isSome = (Utf8.encode? t).isSome := by
  have hmem : ∀ c : CodePoint, c.isScalar = false → (c ∈ plain t ↔ c ∈ t) := by
    intro c hc
    rw [plain, mem_plainOnto_iff hc, or_iff_right List.not_mem_nil]
  rw [Bool.eq_iff_iff, Utf8.isSome_encode?_iff, Utf8.isSome_encode?_iff]
  constructor
  · intro h c hc
    cases hscalar : c.isScalar with
    | true => rfl
    | false => exact hscalar.symm.trans (h c ((hmem c hscalar).mpr hc))
  · intro h c hc
    cases hscalar : c.isScalar with
    | true => rfl
    | false => exact hscalar.symm.trans (h c ((hmem c hscalar).mp hc))

end TerminalMarkup.Command.Plain
