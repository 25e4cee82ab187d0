/-
No surrogate pairs come out of the reader.

Where an escape of a first half is followed by one of a second half, the reader takes
both for one character.  So in a text without surrogates, as every text from a file is,
no string and no name is read in which the halves of a pair stand side by side.

In the middle of a string this is a matter of the character that was read last: it is
`Alone` in front of what is left, which means that what is left does not complete it to a
pair.  From there it goes up through the values, as in the proof that results are `Sound`.
-/
import TerminalMarkup.Proofs.Entries
import TerminalMarkup.Proofs.Json.Faults
import TerminalMarkup.Proofs.Json.Strings

namespace TerminalMarkup.Json

open Text

variable {c d : CodePoint} {t rest : Text}

/-! ### Code points of numbers -/

theorem isHighSurrogate_ofNat (n : Nat) :
    isHighSurrogate (CodePoint.ofNat n).toNat = isHighSurrogate n := by
  unfold CodePoint.ofNat
  split
  · rename_i h
    rw [CodePoint.toNat, Nat.add_sub_cancel' h.1]
  · rename_i h
    rw [isHighSurrogate_scalar]
    simp only [isHighSurrogate, Bool.false_eq, Bool.and_eq_false_iff, decide_eq_false_iff_not]
    omega

theorem isLowSurrogate_scalar (c : Char) : isLowSurrogate (CodePoint.scalar c).toNat = false := by
  have hnot := CodePoint.toNat_not_surrogate c
  have hnumber : (CodePoint.scalar c).toNat = c.toNat := rfl
  simp only [isLowSurrogate, Bool.and_eq_false_iff, decide_eq_false_iff_not, hnumber]
  omega

theorem isLowSurrogate_ofNat (n : Nat) :
    isLowSurrogate (CodePoint.ofNat n).toNat = isLowSurrogate n := by
  unfold CodePoint.ofNat
  split
  · rename_i h
    rw [CodePoint.toNat, Nat.add_sub_cancel' h.1]
  · rename_i h
    rw [isLowSurrogate_scalar]
    simp only [isLowSurrogate, Bool.false_eq, Bool.and_eq_false_iff, decide_eq_false_iff_not]
    omega

/-- A pair stands for a code point that is no half of a pair itself. -/
theorem pairChar_not_surrogate (high low : Nat) :
    isHighSurrogate (pairChar high low).toNat = false ∧
      isLowSurrogate (pairChar high low).toNat = false := by
  rw [pairChar, isHighSurrogate_ofNat, isLowSurrogate_ofNat]
  simp only [isHighSurrogate, isLowSurrogate, Bool.and_eq_false_iff, decide_eq_false_iff_not]
  omega

theorem not_low_of_high {n : Nat} (h : isHighSurrogate n = true) : isLowSurrogate n = false := by
  simp only [isHighSurrogate, Bool.and_eq_true, decide_eq_true_eq] at h
  simp only [isLowSurrogate, Bool.and_eq_false_iff, decide_eq_false_iff_not]
  omega

theorem lt_of_high {n : Nat} (h : isHighSurrogate n = true) : n < 0x110000 := by
  simp only [isHighSurrogate, Bool.and_eq_true, decide_eq_true_eq] at h
  omega

/-! ### Characters that stand alone -/

/-- What is left does not complete the character to a pair. -/
def Alone (c : CodePoint) (t : Text) : Prop :=
  isHighSurrogate c.toNat = true → readPair c.toNat t = .ok (c, t)

/-- What is read where a pair may be is the pair, or the half alone with everything left. -/
theorem readPair_cases {high : Nat} (h : readPair high t = .ok (c, rest)) :
    (∃ low, c = pairChar high low) ∨ c = .ofNat high ∧ rest = t := by
  unfold readPair at h
  split at h
  · split at h
    · cases h
    · split at h
      · rw [Except.ok.injEq, Prod.mk.injEq] at h
        exact Or.inl ⟨_, h.1.symm⟩
      · rw [Except.ok.injEq, Prod.mk.injEq] at h
        exact Or.inr ⟨h.1.symm, h.2.symm⟩
  · rw [Except.ok.injEq, Prod.mk.injEq] at h
    exact Or.inr ⟨h.1.symm, h.2.symm⟩

/-- A second half would have completed the pair. -/
theorem not_alone_of_unit {b w x y z next : CodePoint} {more : Text} {n : Nat}
    (hunit : hexUnit? w x y z = some n) (hlow : isLowSurrogate n = true)
    (hhigh : isHighSurrogate b.toNat = true) :
    ¬Alone b (.scalar '\\' :: .scalar 'u' :: w :: x :: y :: z :: next :: more) := by
  intro halone
  have hpair := halone hhigh
  simp only [readPair, hunit, hlow, if_true, Except.ok.injEq, Prod.mk.injEq] at hpair
  have hlength := congrArg List.length hpair.2
  simp only [List.length_cons] at hlength
  omega

/-- A character that is read from the front of a text is alone, and makes no pair with one that was
alone before it. -/
structure Parted (t : Text) (c : CodePoint) (rest : Text) : Prop where
  alone : Alone c rest
  unpaired : ∀ b, Alone b t → ¬IsPair b c

theorem parted_scalar (c : Char) (t rest : Text) : Parted t c rest := by
  refine ⟨fun hc => ?_, fun b _ hpair => ?_⟩
  · exact absurd ((isHighSurrogate_scalar c).symm.trans hc) Bool.false_ne_true
  · exact absurd ((isLowSurrogate_scalar c).symm.trans hpair.2) Bool.false_ne_true

theorem parted_readUnicode (h : readUnicode t = .ok (c, rest)) :
    Parted (.scalar '\\' :: .scalar 'u' :: t) c rest := by
  unfold readUnicode at h
  split at h
  · rename_i w x y z next more
    split at h
    · cases h
    rename_i n hunit
    split at h
    · rename_i hhigh
      rcases readPair_cases h with ⟨low, heq⟩ | ⟨heq, hrest⟩
      · obtain ⟨hnothigh, hnotlow⟩ := pairChar_not_surrogate n low
        rw [← heq] at hnothigh hnotlow
        refine ⟨fun hc => ?_, fun b _ hpair => ?_⟩
        · exact absurd (hnothigh.symm.trans hc) Bool.false_ne_true
        · exact absurd (hnotlow.symm.trans hpair.2) Bool.false_ne_true
      · have hnumber : c.toNat = n := heq ▸ CodePoint.toNat_ofNat (lt_of_high hhigh)
        refine ⟨fun _ => ?_, fun b _ hpair => ?_⟩
        · rw [hnumber, hrest]
          exact hrest ▸ h
        · have hlow := hpair.2
          rw [hnumber, not_low_of_high hhigh] at hlow
          exact Bool.false_ne_true hlow
    · rename_i hhigh
      cases h
      refine ⟨fun hc => absurd (isHighSurrogate_ofNat n ▸ hc) hhigh, fun b halone hpair => ?_⟩
      exact not_alone_of_unit hunit (isLowSurrogate_ofNat n ▸ hpair.2) hpair.1 halone
  · cases h

theorem isScalar_escapeLetter? (h : escapeLetter? c = some d) : d.isScalar = true := by
  unfold escapeLetter? at h
  split at h
  iterate 8
    cases h
    rfl
  cases h

theorem parted_of_isScalar (hc : c.isScalar = true) (t rest : Text) : Parted t c rest := by
  cases c with
  | scalar c => exact parted_scalar c t rest
  | surrogate k => cases hc

theorem parted_readEscape {opening : Text} (h : readEscape opening t = .ok (c, rest)) :
    Parted (.scalar '\\' :: t) c rest := by
  unfold readEscape at h
  split at h
  · cases h
  split at h
  · rename_i hletter
    rw [hletter]
    exact parted_readUnicode h
  split at h
  · rename_i hletter
    cases h
    exact parted_of_isScalar (isScalar_escapeLetter? hletter) _ _
  · cases h

/-! ### Strings -/

/-- There are no surrogates in the text. -/
def Bare (t : Text) : Prop := ∀ c ∈ t, c.isScalar = true

theorem Bare.of_suffix (h : Bare t) (hrest : rest <:+ t) : Bare rest :=
  fun c hc => h c (hrest.subset hc)

/-- In the middle of a string: the characters that are done, in reverse, make no pairs, and the last
of them is alone. -/
structure Unjoined (done t : Text) : Prop where
  chain : done.IsChain fun d c => ¬IsPair c d
  alone : ∀ b ∈ done.head?, Alone b t

theorem Unjoined.cons {done : Text} (h : Unjoined done t) (hc : Parted t c rest) :
    Unjoined (c :: done) rest where
  chain := List.isChain_cons.mpr ⟨fun b hb => hc.unpaired b (h.alone b hb), h.chain⟩
  alone b hb := by
    cases hb
    exact hc.alone

theorem unpaired_readChars {opening done s : Text} (ht : Bare t) (hdone : Unjoined done t)
    (h : readChars opening done t = .ok (s, rest)) : Unpaired s := by
  induction hn : t.length using Nat.strongRecOn generalizing t done with
  | ind n ih =>
      cases t with
      | nil =>
          rw [readChars] at h
          cases h
      | cons c more =>
          have hmore : Bare more := ht.of_suffix (List.suffix_cons c more)
          rw [readChars] at h
          split at h
          · cases h
            exact List.isChain_reverse.mpr hdone.chain
          split at h
          · rename_i hbackslash
            split at h
            · cases h
            · rename_i d rest' heq
              have hlt : rest'.length < n := hn ▸ Nat.lt_succ_of_le (length_readEscape_le heq)
              have hrest := hmore.of_suffix ((sound_readEscape opening more).rest d rest' heq)
              rw [hbackslash] at hdone
              exact ih _ hlt hrest (hdone.cons (parted_readEscape heq)) h rfl
          split at h
          · cases h
          · have hc := parted_of_isScalar (ht c List.mem_cons_self) (c :: more) more
            exact ih _ (hn ▸ Nat.lt_succ_self _) hmore (hdone.cons hc) h rfl

theorem unpaired_readString {s : Text} (ht : Bare t) (h : readString t = .ok (s, rest)) :
    Unpaired s :=
  unpaired_readChars ht ⟨.nil, fun _ hb => by cases hb⟩ h

theorem unpaired_readName {name : Text} (ht : Bare t) (h : readName t = .ok (name, rest)) :
    Unpaired name := by
  unfold readName at h
  split at h
  · rename_i more
    have hmore : Bare more := ht.of_suffix (List.suffix_cons _ more)
    split at h
    · cases h
    · rename_i name' rest' heq
      split at h
      · cases h
        exact unpaired_readString hmore heq
      · cases h
  · cases h

/-! ### Values -/

/-- In no string and in no name of the value the halves of a pair stand side by side. -/
inductive NoPairs : Json → Prop
  | scalar {s : Scalar} (h : ∀ t, s = .text t → Unpaired t) : NoPairs (.scalar s)
  | array {items : List Json} (h : ∀ v ∈ items, NoPairs v) : NoPairs (.array items)
  | object {members : List (Text × Json)} (hnames : ∀ m ∈ members, Unpaired m.1)
      (hvalues : ∀ m ∈ members, NoPairs m.2) : NoPairs (.object members)

theorem NoPairs.cons {members : List (Text × Json)} {name : Text} {v : Json}
    (h : NoPairs (.object members)) (hname : Unpaired name) (hv : NoPairs v) :
    NoPairs (.object ((name, v) :: members)) := by
  cases h with
  | object hnames hvalues =>
      exact .object (List.forall_mem_cons.mpr ⟨hname, hnames⟩)
        (List.forall_mem_cons.mpr ⟨hv, hvalues⟩)

/-- Members of one name are put together. -/
theorem NoPairs.ofPairs {members : List (Text × Json)} (h : NoPairs (.object members)) :
    NoPairs (.object (Entries.ofPairs members)) := by
  cases h with
  | object hnames hvalues =>
      exact .object (fun m hm => hnames m (Entries.mem_of_mem_ofPairs hm))
        fun m hm => hvalues m (Entries.mem_of_mem_ofPairs hm)

theorem readWord?_ne_text {s : Text} : readWord? t ≠ some (.text s, rest) := by
  intro h
  obtain ⟨⟨word, s'⟩, hmem, hword⟩ := List.exists_of_findSome?_eq_some h
  obtain ⟨rest', -, hpair⟩ := Option.map_eq_some_iff.mp hword
  cases hpair
  simp [words] at hmem

theorem readNumber_ne_text {s : Text} : readNumber t ≠ .ok (.text s, rest) := by
  intro h
  unfold readNumber at h
  dsimp only at h
  repeat' split at h
  all_goals cases h

theorem noPairs_readScalar {s : Scalar} (ht : Bare t) (h : readScalar t = .ok (s, rest)) :
    NoPairs (.scalar s) := by
  refine .scalar fun s' hs' => ?_
  subst hs'
  unfold readScalar at h
  split at h
  · rename_i more
    split at h
    · cases h
    · rename_i s rest' heq
      cases h
      exact unpaired_readString (ht.of_suffix (List.suffix_cons _ more)) heq
  · split at h
    · rename_i hword
      cases h
      exact absurd hword readWord?_ne_text
    · exact absurd h readNumber_ne_text

section Values

variable {fuel : Nat} {v : Json} {items : List Json} {members : List (Text × Json)}

/-- What a part of the reader gives of a text without surrogates satisfies a predicate. -/
def Gives {α : Type} (read : Text → Except Stop (α × Text)) (p : α → Prop) : Prop :=
  ∀ t, Bare t → ∀ a rest, read t = .ok (a, rest) → p a

theorem noPairs_readValue (hitems : Gives (readItems fuel) fun items => ∀ v ∈ items, NoPairs v)
    (hmembers : Gives (readMembers fuel) fun members => NoPairs (.object members)) :
    Gives (readValue (fuel + 1)) NoPairs := by
  intro t ht v rest h
  unfold readValue at h
  split at h
  · rename_i inner
    have hinner : Bare (skipSpace inner) :=
      ht.of_suffix ((skipSpace_suffix inner).trans (List.suffix_cons _ inner))
    split at h
    · cases h
      exact .array (List.forall_mem_nil _)
    · split at h
      · cases h
      · rename_i items rest' heq
        cases h
        exact .array (hitems _ hinner _ _ heq)
  · rename_i inner
    have hinner : Bare (skipSpace inner) :=
      ht.of_suffix ((skipSpace_suffix inner).trans (List.suffix_cons _ inner))
    split at h
    · cases h
      exact .object (List.forall_mem_nil _) (List.forall_mem_nil _)
    · split at h
      · cases h
      · rename_i members rest' heq
        cases h
        exact (hmembers _ hinner _ _ heq).ofPairs
  · split at h
    · cases h
    · rename_i s rest' heq
      cases h
      exact noPairs_readScalar ht heq

theorem noPairs_readItems (hvalue : Gives (readValue fuel) NoPairs)
    (hitems : Gives (readItems fuel) fun items => ∀ v ∈ items, NoPairs v) :
    Gives (readItems (fuel + 1)) fun items => ∀ v ∈ items, NoPairs v := by
  intro t ht items rest h
  unfold readItems at h
  split at h
  · cases h
  · rename_i item rest' heq
    have hitem : NoPairs item := hvalue t ht _ _ heq
    have hrest' : Bare rest' := ht.of_suffix (((sound_readValues fuel).1 t).rest _ _ heq)
    split at h
    · cases h
      exact List.forall_mem_singleton.mpr hitem
    · rename_i next hcomma
      have hnext : Bare (skipSpace next) :=
        hrest'.of_suffix ((skipSpace_suffix next).trans (suffix_of_skipSpace hcomma))
      split at h
      · cases h
      · rename_i more rest'' hmore
        cases h
        exact List.forall_mem_cons.mpr ⟨hitem, hitems _ hnext _ _ hmore⟩
    · cases h

theorem noPairs_readMembers (hvalue : Gives (readValue fuel) NoPairs)
    (hmembers : Gives (readMembers fuel) fun members => NoPairs (.object members)) :
    Gives (readMembers (fuel + 1)) fun members => NoPairs (.object members) := by
  intro t ht members rest h
  unfold readMembers at h
  split at h
  · cases h
  · rename_i name afterName hname
    have hafterName : Bare (skipSpace afterName) :=
      ht.of_suffix ((skipSpace_suffix _).trans ((sound_readName t).rest _ _ hname))
    have hunpaired : Unpaired name := unpaired_readName ht hname
    split at h
    · cases h
    · rename_i v afterValue heq
      have hv : NoPairs v := hvalue _ hafterName _ _ heq
      have hafterValue : Bare afterValue :=
        hafterName.of_suffix (((sound_readValues fuel).1 _).rest _ _ heq)
      split at h
      · cases h
        exact .object (List.forall_mem_singleton.mpr hunpaired) (List.forall_mem_singleton.mpr hv)
      · rename_i next hcomma
        have hnext : Bare (skipSpace next) :=
          hafterValue.of_suffix ((skipSpace_suffix next).trans (suffix_of_skipSpace hcomma))
        split at h
        · cases h
        · rename_i more rest' hmore
          cases h
          exact (hmembers _ hnext _ _ hmore).cons hunpaired hv
      · cases h

end Values

/-- Values, items and members call each other with one unit of fuel less. -/
theorem noPairs_readValues (fuel : Nat) :
    Gives (readValue fuel) NoPairs ∧ Gives (readItems fuel) (fun items => ∀ v ∈ items, NoPairs v) ∧
      Gives (readMembers fuel) (fun members => NoPairs (.object members)) := by
  induction fuel with
  | zero =>
      refine ⟨?_, ?_, ?_⟩
      all_goals
        intro t _ a rest h
        cases h
  | succ fuel ih =>
      obtain ⟨hvalue, hitems, hmembers⟩ := ih
      exact ⟨noPairs_readValue hitems hmembers, noPairs_readItems hvalue hitems,
        noPairs_readMembers hvalue hmembers⟩

/-- **No surrogate pairs are read from a text without surrogates.** -/
theorem noPairs_of_read {v : Json} (ht : Bare t) (h : read t = .ok v) : NoPairs v := by
  have hwhole : readWhole t = .ok v := by
    unfold read at h
    split at h
    · rename_i heq
      cases h
      exact heq
    · cases h
  unfold readWhole at hwhole
  split at hwhole
  · cases hwhole
  split at hwhole
  · cases hwhole
  · rename_i v' rest heq
    have hv : NoPairs v' :=
      (noPairs_readValues _).1 _ (ht.of_suffix (skipSpace_suffix t)) _ _ heq
    split at hwhole
    · cases hwhole
      exact hv
    · cases hwhole

end TerminalMarkup.Json
