/-
Strings are read as they were written.

A character is written as itself, as a letter after a backslash, or by its code units.
The reader goes through these forms in another order than the writer, but no form can
be taken for another, so one character is read for each that was written
(`readChars_printChar`) and the string follows by going through its characters
(`readString_flatMap`).

Two things are special about code units.  A character beyond the first 65536 has two,
and the reader must see the second before it knows the character.  And the reader
insists on another character after the four digits, which is why what follows may not
be empty; in a string the closing quotation mark is always there.

There is one kind of text that does not come back as it was.  Two surrogates that are the halves
of a pair are written like the character that the pair stands for, and are read as that
character: what comes back is the text with its pairs joined (`joinPairs`).  `Unpaired`
says that no two neighbours are such halves; a text without surrogates is unpaired, and so
is one with a surrogate that stands alone, and both come back as they were.
-/
import Mathlib.Data.List.Chain
import TerminalMarkup.Json.Printer
import TerminalMarkup.Json.Reader

namespace TerminalMarkup

open Text

/-! ### Hexadecimal digits -/

/-- Four digits are enough for a code unit. -/
theorem Text.hex_four {n : Nat} (h : n < 0x10000) :
    hex 4 n = ofChars [Nat.digitChar (n / 16 / 16 / 16), Nat.digitChar (n / 16 / 16 % 16),
      Nat.digitChar (n / 16 % 16), Nat.digitChar (n % 16)] := by
  have hbase : (1 : Nat) < 16 := by decide
  rw [hex, Nat.toDigits_eq_if hbase]
  split
  · have hrest : n / 16 = 0 := by omega
    have hlast : n % 16 = n := by omega
    rw [hrest, hlast]
    rfl
  rw [Nat.toDigits_eq_if hbase]
  split
  · have hrest : n / 16 / 16 = 0 := by omega
    have hlast : n / 16 % 16 = n / 16 := by omega
    rw [hrest, hlast]
    rfl
  rw [Nat.toDigits_eq_if hbase]
  split
  · have hrest : n / 16 / 16 / 16 = 0 := by omega
    have hlast : n / 16 / 16 % 16 = n / 16 / 16 := by omega
    rw [hrest, hlast]
    rfl
  · rw [Nat.toDigits_of_lt_base (by omega)]
    rfl

namespace Json

theorem hexDigit?_digitChar : ∀ d < 16, hexDigit? (.scalar (Nat.digitChar d)) = some d := by
  decide

/-- The digits of a code unit denote it. -/
theorem exists_hex_four {n : Nat} (h : n < 0x10000) :
    ∃ a b c d, hex 4 n = [a, b, c, d] ∧ hexUnit? a b c d = some n := by
  refine ⟨_, _, _, _, hex_four h, ?_⟩
  have hpos : 0 < 16 := by decide
  have hvalue : ((16 * (n / 16 / 16 / 16) + n / 16 / 16 % 16) * 16 + n / 16 % 16) * 16 + n % 16
      = n := by
    omega
  simp only [hexUnit?, hexDigit?_digitChar _ (show n / 16 / 16 / 16 < 16 by omega),
    hexDigit?_digitChar _ (Nat.mod_lt _ hpos), hvalue]

/-! ### Pairs -/

/-- The halves of a pair. -/
def IsPair (c d : CodePoint) : Prop :=
  isHighSurrogate c.toNat = true ∧ isLowSurrogate d.toNat = true

/-- No two neighbours in the text are the halves of a pair. -/
def Unpaired (t : Text) : Prop := t.IsChain fun c d => ¬IsPair c d

instance (c d : CodePoint) : Decidable (IsPair c d) :=
  inferInstanceAs (Decidable (isHighSurrogate c.toNat = true ∧ isLowSurrogate d.toNat = true))

instance (t : Text) : Decidable (Unpaired t) :=
  inferInstanceAs (Decidable (t.IsChain fun c d => ¬IsPair c d))

theorem isHighSurrogate_scalar (c : Char) : isHighSurrogate (CodePoint.scalar c).toNat = false := by
  have hnot := CodePoint.toNat_not_surrogate c
  have hnumber : (CodePoint.scalar c).toNat = c.toNat := rfl
  simp only [isHighSurrogate, Bool.and_eq_false_iff, decide_eq_false_iff_not, hnumber]
  omega

/-- **Characters make no pairs.** -/
theorem unpaired_ofChars (chars : List Char) : Unpaired (.ofChars chars) := by
  induction chars with
  | nil => exact .nil
  | cons c chars ih =>
      cases chars with
      | nil => exact .singleton _
      | cons d chars =>
          refine .cons_cons (fun h => ?_) ih
          rw [IsPair, isHighSurrogate_scalar] at h
          exact Bool.noConfusion h.1

/-- The text with each pair in it made the character that the pair stands for. -/
def joinPairs : Text → Text
  | [] => []
  | [c] => [c]
  | c :: d :: t =>
    if IsPair c d then pairChar c.toNat d.toNat :: joinPairs t else c :: joinPairs (d :: t)

theorem joinPairs_of_unpaired {t : Text} (h : Unpaired t) : joinPairs t = t := by
  induction t using joinPairs.induct with
  | case1 => rfl
  | case2 c => rfl
  | case3 c d t hpair ih => exact absurd hpair h.rel
  | case4 c d t hpair ih => rw [joinPairs, if_neg hpair, ih h.tail]

/-- What a pair stands for lies beyond what one code unit can be. -/
theorem le_toNat_pairChar {c d : CodePoint} (h : IsPair c d) :
    0x10000 ≤ (pairChar c.toNat d.toNat).toNat := by
  obtain ⟨hhigh, hlow⟩ := h
  simp only [isHighSurrogate, isLowSurrogate, Bool.and_eq_true, decide_eq_true_eq] at hhigh hlow
  rw [pairChar, CodePoint.toNat_ofNat (by omega)]
  omega

/-- **No text but itself becomes one that has only characters before the surrogates.** -/
theorem joinPairs_eq_iff {t u : Text} (hu : ∀ c ∈ u, c.toNat < 0xd800) :
    joinPairs t = u ↔ t = u := by
  induction t using joinPairs.induct generalizing u with
  | case1 => rfl
  | case2 c => rfl
  | case3 c d t hpair ih =>
      have hjoined := le_toNat_pairChar hpair
      have hhigh := hpair.1
      simp only [isHighSurrogate, Bool.and_eq_true, decide_eq_true_eq] at hhigh
      rw [joinPairs, if_pos hpair]
      refine iff_of_false ?_ ?_
      · rintro rfl
        have hlt := hu _ List.mem_cons_self
        omega
      · rintro rfl
        have hlt := hu _ List.mem_cons_self
        omega
  | case4 c d t hpair ih =>
      rw [joinPairs, if_neg hpair]
      cases u with
      | nil => exact iff_of_false (List.cons_ne_nil _ _) (List.cons_ne_nil _ _)
      | cons e u =>
          rw [List.cons.injEq, List.cons.injEq, ih fun c hc => hu c (List.mem_cons_of_mem e hc)]

theorem readPair_of_ne {high : Nat} {t : Text}
    (h : ∀ rest, t ≠ .scalar '\\' :: .scalar 'u' :: rest) :
    readPair high t = .ok (.ofNat high, t) := by
  unfold readPair
  split
  · exact absurd rfl (h _)
  · rfl

theorem unitEscape_append_ne_nil (n : Nat) (more : Text) : unitEscape n ++ more ≠ [] :=
  List.cons_ne_nil _ _

/-- A code unit that is no second half makes no pair. -/
theorem readPair_unit {high n : Nat} (hn : n < 0x10000) (hlow : isLowSurrogate n = false)
    {more : Text} (hmore : more ≠ []) :
    readPair high (unitEscape n ++ more) = .ok (.ofNat high, unitEscape n ++ more) := by
  obtain ⟨next, more, rfl⟩ := List.exists_cons_of_ne_nil hmore
  obtain ⟨w, x, y, z, hhex, hunit⟩ := exists_hex_four hn
  simp [unitEscape, hhex, readPair, hunit, hlow]

/-! ### Code units -/

/-- One code unit is read, and if it is the first half of a pair then the second is looked for. -/
theorem readUnicode_unit {n : Nat} (hn : n < 0x10000) {more : Text} (hmore : more ≠ []) :
    readUnicode (hex 4 n ++ more)
      = if isHighSurrogate n then readPair n more else .ok (.ofNat n, more) := by
  obtain ⟨w, x, y, z, hhex, hunit⟩ := exists_hex_four hn
  obtain ⟨next, more, rfl⟩ := List.exists_cons_of_ne_nil hmore
  simp [hhex, readUnicode, hunit]

/-- A pair of code units is read. -/
theorem readUnicode_pair {high low : Nat} (hhigh : isHighSurrogate high = true)
    (hlow : isLowSurrogate low = true) {more : Text} (hmore : more ≠ []) :
    readUnicode (hex 4 high ++ (unitEscape low ++ more)) = .ok (pairChar high low, more) := by
  have hfits : high < 0x10000 ∧ low < 0x10000 := by
    simp only [isHighSurrogate, isLowSurrogate, Bool.and_eq_true, decide_eq_true_eq] at hhigh hlow
    omega
  obtain ⟨next, more, rfl⟩ := List.exists_cons_of_ne_nil hmore
  obtain ⟨w, x, y, z, hhex, hunit⟩ := exists_hex_four hfits.2
  rw [readUnicode_unit hfits.1 (unitEscape_append_ne_nil _ _), if_pos hhigh]
  simp [hhex, unitEscape, readPair, hunit, hlow]

/-- The code units of a character that has two. -/
theorem surrogates {n : Nat} (hn : n < 0x100000) :
    isHighSurrogate (0xd800 + n / 0x400) = true ∧ isLowSurrogate (0xdc00 + n % 0x400) = true ∧
      pairChar (0xd800 + n / 0x400) (0xdc00 + n % 0x400) = .ofNat (0x10000 + n) := by
  have hsum : 0x10000 + (0xd800 + n / 0x400 - 0xd800) * 0x400 + (0xdc00 + n % 0x400 - 0xdc00)
      = 0x10000 + n := by
    omega
  refine ⟨?_, ?_, by rw [pairChar, hsum]⟩
  · simp only [isHighSurrogate, Bool.and_eq_true, decide_eq_true_eq]
    omega
  · simp only [isLowSurrogate, Bool.and_eq_true, decide_eq_true_eq]
    omega

/-! ### Characters -/

theorem readChars_of_escape {opening done t rest : Text} {c : CodePoint}
    (h : readEscape opening t = .ok (c, rest)) :
    readChars opening done ('\\' :: t) = readChars opening (c :: done) rest := by
  rw [readChars, if_neg (by decide), if_pos rfl]
  split
  · rename_i e h'
    rw [h] at h'
    cases h'
  · rename_i d rest' h'
    rw [h] at h'
    cases h'
    rfl

theorem readChars_of_ordinary {c : CodePoint} (hquote : c ≠ '\x22') (hbackslash : c ≠ '\\')
    (hcontrol : 0x20 ≤ c.toNat) (opening done rest : Text) :
    readChars opening done (c :: rest) = readChars opening (c :: done) rest := by
  rw [readChars, if_neg hquote, if_neg hbackslash, if_neg (by omega)]

/-- The first code unit of a character that has two is no second half. -/
theorem isLowSurrogate_first {n : Nat} (hn : n < 0x110000) :
    isLowSurrogate (0xd800 + (n - 0x10000) / 0x400) = false := by
  simp only [isLowSurrogate, Bool.and_eq_false_iff, decide_eq_false_iff_not]
  omega

/-- What a character is written as does not complete a pair, unless it is the second half itself. -/
theorem readPair_printChar {high : Nat} {c : CodePoint} (hc : isLowSurrogate c.toNat = false)
    {more : Text} (hmore : more ≠ []) :
    readPair high (printChar c ++ more) = .ok (.ofNat high, printChar c ++ more) := by
  unfold printChar
  split
  -- First the characters that a letter stands for.
  iterate 7 exact readPair_of_ne (by simp)
  rename_i hbackslash _ _ _ _ _
  split
  · exact readPair_of_ne fun rest h => hbackslash (List.cons.inj h).1
  split
  · rename_i hunit
    exact readPair_unit hunit hc hmore
  · have hlt := c.toNat_lt
    have hunit : 0xd800 + (c.toNat - 0x10000) / 0x400 < 0x10000 := by omega
    rw [List.append_assoc]
    exact readPair_unit hunit (isLowSurrogate_first hlt) (unitEscape_append_ne_nil _ _)

/-- A character is read as it was written, if what follows does not complete a pair. -/
theorem readChars_printChar (opening done : Text) {c : CodePoint} {more : Text} (hmore : more ≠ [])
    (halone : isHighSurrogate c.toNat = true → readPair c.toNat more = .ok (c, more)) :
    readChars opening done (printChar c ++ more) = readChars opening (c :: done) more := by
  unfold printChar
  split
  iterate 7 exact readChars_of_escape rfl
  rename_i hquote hbackslash _ _ _ _ _
  split
  · rename_i hgraphic
    exact readChars_of_ordinary hquote hbackslash hgraphic.1 _ _ _
  split
  · rename_i hunit
    refine readChars_of_escape ((readUnicode_unit hunit hmore).trans ?_)
    split
    · rename_i hhigh
      exact halone hhigh
    · rw [CodePoint.ofNat_toNat]
  · rename_i hpair
    have hlt := c.toNat_lt
    obtain ⟨n, hn⟩ := Nat.exists_eq_add_of_le (Nat.le_of_not_lt hpair)
    obtain ⟨hhigh, hlow, hchar⟩ := surrogates (show n < 0x100000 by omega)
    rw [← hn, CodePoint.ofNat_toNat] at hchar
    rw [hn, Nat.add_sub_cancel_left, ← hchar, List.append_assoc]
    exact readChars_of_escape (readUnicode_pair hhigh hlow hmore)

/-- A surrogate is written as its code unit. -/
theorem printChar_of_surrogate {c : CodePoint} (h : 0xd800 ≤ c.toNat) (hunit : c.toNat < 0x10000) :
    printChar c = unitEscape c.toNat := by
  unfold printChar
  split
  iterate 7 exact absurd h (by decide)
  rw [if_neg (by omega), if_pos hunit]

/-- A pair is read as the character that it stands for. -/
theorem readChars_pair (opening done : Text) {c d : CodePoint} (h : IsPair c d) {more : Text}
    (hmore : more ≠ []) :
    readChars opening done (printChar c ++ (printChar d ++ more))
      = readChars opening (pairChar c.toNat d.toNat :: done) more := by
  obtain ⟨hhigh, hlow⟩ := h
  have hunits := And.intro hhigh hlow
  simp only [isHighSurrogate, isLowSurrogate, Bool.and_eq_true, decide_eq_true_eq] at hunits
  rw [printChar_of_surrogate (by omega) (by omega), printChar_of_surrogate (by omega) (by omega)]
  exact readChars_of_escape (readUnicode_pair hhigh hlow hmore)

theorem readChars_flatMap (opening rest t : Text) : ∀ done : Text,
    readChars opening done (t.flatMap printChar ++ .scalar '\x22' :: rest)
      = .ok (done.reverse ++ joinPairs t, rest) := by
  induction t using joinPairs.induct with
  | case1 =>
      intro done
      rw [List.flatMap_nil, List.nil_append, readChars, if_pos rfl, joinPairs, List.append_nil]
  | case2 c =>
      intro done
      have halone : isHighSurrogate c.toNat = true →
          readPair c.toNat (.scalar '\x22' :: rest) = .ok (c, .scalar '\x22' :: rest) := by
        intro _
        rw [readPair_of_ne (by simp), CodePoint.ofNat_toNat]
      rw [List.flatMap_singleton, readChars_printChar _ _ (List.cons_ne_nil _ _) halone, readChars,
        if_pos rfl, List.reverse_cons, joinPairs]
  | case3 c d t hpair ih =>
      intro done
      rw [List.flatMap_cons, List.flatMap_cons, List.append_assoc, List.append_assoc,
        readChars_pair _ _ hpair (by simp), ih, joinPairs, if_pos hpair, List.reverse_cons,
        List.append_assoc, List.singleton_append]
  | case4 c d t hpair ih =>
      intro done
      have halone : isHighSurrogate c.toNat = true →
          readPair c.toNat ((d :: t).flatMap printChar ++ .scalar '\x22' :: rest)
            = .ok (c, (d :: t).flatMap printChar ++ .scalar '\x22' :: rest) := by
        intro hhigh
        have hlow : isLowSurrogate d.toNat = false :=
          Bool.eq_false_iff.mpr fun hlow => hpair ⟨hhigh, hlow⟩
        rw [List.flatMap_cons, List.append_assoc, readPair_printChar hlow (by simp),
          CodePoint.ofNat_toNat]
      rw [List.flatMap_cons, List.append_assoc, readChars_printChar _ _ (by simp) halone, ih,
        joinPairs, if_neg hpair, List.reverse_cons, List.append_assoc, List.singleton_append]

/-- **A string is read as it was written, but for the pairs in it, which are joined.** -/
theorem readString_flatMap (t rest : Text) :
    readString (t.flatMap printChar ++ .scalar '\x22' :: rest) = .ok (joinPairs t, rest) := by
  rw [readString, readChars_flatMap]
  rfl

end Json

end TerminalMarkup
