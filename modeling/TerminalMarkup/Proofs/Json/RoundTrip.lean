/-
Values are read as they were written.

`ReadAs` says of a value at a depth of nesting that its written form is plain ASCII, that no
white space comes before it, and that reading it gives a value and stops right after it,
whatever follows.  This value need not be the one that was written: booleans come back as
they are, but the pairs in strings and in names are joined, and the names of an object may be
the same then, so that its members come together.  For an object the proof goes by induction on
the members; each of them begins with a quotation mark and ends before a comma or a brace, so
the white space between them is the writer's own.

The reader's fuel is no concern: a value that takes up `n` characters is read with
fuel `n`, and the whole text is given more than that.
-/
import TerminalMarkup.Proofs.Entries
import TerminalMarkup.Proofs.Json.Strings

namespace TerminalMarkup

open Text

namespace Json

/-! ### Plain ASCII -/

/-- A printing ASCII character, or the end of a line. -/
def IsPlain (c : CodePoint) : Prop := c = '\n' ∨ (0x20 ≤ c.toNat ∧ c.toNat ≤ 0x7e)

instance (c : CodePoint) : Decidable (IsPlain c) :=
  inferInstanceAs (Decidable (c = '\n' ∨ (0x20 ≤ c.toNat ∧ c.toNat ≤ 0x7e)))

theorem isScalar_of_isPlain {c : CodePoint} (h : IsPlain c) : c.isScalar = true := by
  rcases h with rfl | h
  · rfl
  · exact CodePoint.isScalar_of_toNat_lt (by omega)

/-- A few characters are looked at one by one. -/
theorem isPlain_of_all {t : Text} (h : t.all (IsPlain ·) = true) : ∀ c ∈ t, IsPlain c := by
  simpa only [List.all_eq_true, decide_eq_true_eq] using h

theorem isPlain_digitChar : ∀ d < 16, IsPlain (.scalar (Nat.digitChar d)) := by
  decide

theorem isPlain_unitEscape {n : Nat} (h : n < 0x10000) : ∀ c ∈ unitEscape n, IsPlain c := by
  have hpos : 0 < 16 := by decide
  have hmark : ∀ c ∈ "\\u".toText, IsPlain c := isPlain_of_all rfl
  intro c hc
  rw [unitEscape, hex_four h] at hc
  simp only [ofChars, List.map_cons, List.map_nil, List.mem_cons, List.not_mem_nil, or_false] at hc
  rcases hc with rfl | rfl | rfl | rfl | rfl | rfl
  · exact hmark _ (by decide)
  · exact hmark _ (by decide)
  · exact isPlain_digitChar _ (by omega)
  · exact isPlain_digitChar _ (Nat.mod_lt _ hpos)
  · exact isPlain_digitChar _ (Nat.mod_lt _ hpos)
  · exact isPlain_digitChar _ (Nat.mod_lt _ hpos)

theorem isPlain_printChar (c : CodePoint) : ∀ d ∈ printChar c, IsPlain d := by
  have hlt := c.toNat_lt
  unfold printChar
  split
  -- First the characters that a letter stands for.
  iterate 7 exact isPlain_of_all rfl
  split
  · rename_i hgraphic
    intro d hd
    rw [List.mem_singleton.mp hd]
    exact Or.inr hgraphic
  split
  · rename_i hunit
    exact isPlain_unitEscape hunit
  · intro d hd
    rcases List.mem_append.mp hd with hd | hd
    · exact isPlain_unitEscape (by omega) d hd
    · exact isPlain_unitEscape (by omega) d hd

theorem isPlain_printText (t : Text) : ∀ c ∈ printText t, IsPlain c := by
  intro c hc
  simp only [printText, List.cons_append, List.mem_cons, List.mem_append, List.mem_flatMap,
    List.not_mem_nil, or_false] at hc
  rcases hc with rfl | ⟨d, -, hc⟩ | rfl
  · decide
  · exact isPlain_printChar d c hc
  · decide

theorem isPlain_indent (depth : Nat) : ∀ c ∈ indent depth, IsPlain c := by
  intro c hc
  rcases List.mem_cons.mp hc with rfl | hc
  · decide
  · rw [List.eq_of_mem_replicate hc]
    decide

/-! ### White space -/

theorem skipSpace_of_not_space {c : CodePoint} (h : isSpace c = false) (t : Text) :
    skipSpace (c :: t) = c :: t := by simp [skipSpace, h]

theorem skipSpace_indent (depth : Nat) (t : Text) :
    skipSpace (indent depth ++ t) = skipSpace t := by
  refine List.dropWhile_append_of_pos ?_
  intro c hc
  rcases List.mem_cons.mp hc with rfl | hc
  · rfl
  · rw [List.eq_of_mem_replicate hc]
    rfl

/-! ### Steps of the reader -/

theorem readValue_text {fuel : Nat} {t s rest : Text} (h : readString t = .ok (s, rest)) :
    readValue (fuel + 1) (.scalar '\x22' :: t) = .ok (.scalar (.text s), rest) := by
  simp [readValue, readScalar, h]

theorem readValue_object {fuel : Nat} {t u rest : Text} {members : List (Text × Json)}
    (hopen : skipSpace t = .scalar '\x22' :: u)
    (h : readMembers fuel (.scalar '\x22' :: u) = .ok (members, rest)) :
    readValue (fuel + 1) (.scalar '\x7b' :: t) = .ok (.object (Entries.ofPairs members), rest) := by
  simp [readValue, hopen, h]

theorem readName_text {t name u rest : Text} (h : readString t = .ok (name, u))
    (hcolon : skipSpace u = .scalar ':' :: rest) :
    readName (.scalar '\x22' :: t) = .ok (name, rest) := by
  simp [readName, h, hcolon]

theorem readMembers_last {fuel : Nat} {t name afterName afterValue rest : Text} {v : Json}
    (hname : readName t = .ok (name, afterName))
    (hvalue : readValue fuel (skipSpace afterName) = .ok (v, afterValue))
    (hclose : skipSpace afterValue = .scalar '\x7d' :: rest) :
    readMembers (fuel + 1) t = .ok ([(name, v)], rest) := by
  simp [readMembers, hname, hvalue, hclose]

theorem readMembers_more {fuel : Nat} {t name afterName afterValue next rest : Text} {v : Json}
    {members : List (Text × Json)} (hname : readName t = .ok (name, afterName))
    (hvalue : readValue fuel (skipSpace afterName) = .ok (v, afterValue))
    (hcomma : skipSpace afterValue = .scalar ',' :: next)
    (hmembers : readMembers fuel (skipSpace next) = .ok (members, rest)) :
    readMembers (fuel + 1) t = .ok ((name, v) :: members, rest) := by
  simp [readMembers, hname, hvalue, hcomma, hmembers]

/-! ### What is read -/

/-- The first value, as it is written, is read as the second. -/
structure ReadAs (depth : Nat) (v w : Json) : Prop where
  plain : ∀ c ∈ print depth v, IsPlain c
  begins : ∃ c rest, print depth v = c :: rest ∧ isSpace c = false
  reads : ∀ fuel rest, (print depth v).length ≤ fuel →
    readValue fuel (print depth v ++ rest) = .ok (w, rest)

theorem readAs_bool (depth : Nat) (b : Bool) :
    ReadAs depth (.scalar (.bool b)) (.scalar (.bool b)) where
  plain := by
    cases b with
    | true => exact isPlain_of_all rfl
    | false => exact isPlain_of_all rfl
  begins := by
    cases b with
    | true => exact ⟨'t', _, rfl, rfl⟩
    | false => exact ⟨'f', _, rfl, rfl⟩
  reads := by
    intro fuel rest hfuel
    cases fuel with
    | zero =>
        have hlength : 0 < (print depth (.scalar (.bool b))).length := by
          cases b <;> exact Nat.zero_lt_succ _
        omega
    | succ fuel => cases b <;> rfl

theorem readAs_text (depth : Nat) (t : Text) :
    ReadAs depth (.scalar (.text t)) (.scalar (.text (joinPairs t))) where
  plain := isPlain_printText t
  begins := ⟨'\x22', _, rfl, rfl⟩
  reads := by
    intro fuel rest hfuel
    cases fuel with
    | zero => simp [print, printScalar, printText] at hfuel
    | succ fuel =>
        rw [print, printScalar, printText, List.append_assoc]
        exact readValue_text (readString_flatMap t rest)

/-! ### Members -/

/-- A member on its line. -/
def printMember (depth : Nat) (name : Text) (v : Json) : Text :=
  printText name ++ ": ".toText ++ print depth v

theorem print_object_cons (depth : Nat) (name : Text) (v : Json) (members : List (Text × Json)) :
    print depth (.object ((name, v) :: members))
      = .scalar '\x7b' :: (indent (depth + 1) ++ (printMember (depth + 1) name v
          ++ printMembers depth members)) := by
  simp [print, printMember]

theorem printMembers_cons (depth : Nat) (name : Text) (v : Json) (members : List (Text × Json)) :
    printMembers depth ((name, v) :: members)
      = .scalar ',' :: (indent (depth + 1) ++ (printMember (depth + 1) name v
          ++ printMembers depth members)) := by
  simp [printMembers, printMember]

theorem readName_printMember (depth : Nat) (name : Text) (v : Json) (rest : Text) :
    readName (printMember depth name v ++ rest)
      = .ok (joinPairs name, .scalar ' ' :: (print depth v ++ rest)) := by
  have hmember : printMember depth name v ++ rest
      = .scalar '\x22' :: (name.flatMap printChar
          ++ .scalar '\x22' :: .scalar ':' :: .scalar ' ' :: (print depth v ++ rest)) := by
    simp [printMember, printText, String.toText, ofChars]
  rw [hmember]
  exact readName_text (readString_flatMap name _) (skipSpace_of_not_space rfl _)

/-- The value of a member is read, the space before it being passed over. -/
theorem ReadAs.reads_afterName {depth : Nat} {v w : Json} (hv : ReadAs depth v w) {fuel : Nat}
    (hfuel : (print depth v).length ≤ fuel) (rest : Text) :
    readValue fuel (skipSpace (.scalar ' ' :: (print depth v ++ rest))) = .ok (w, rest) := by
  have hspace : skipSpace (.scalar ' ' :: (print depth v ++ rest)) = print depth v ++ rest := by
    obtain ⟨c, t, hprint, hc⟩ := hv.begins
    rw [hprint]
    exact skipSpace_of_not_space hc _
  rw [hspace]
  exact hv.reads fuel rest hfuel

/-- The first member is read as the second. -/
def MemberReadAs (depth : Nat) (m m' : Text × Json) : Prop :=
  joinPairs m.1 = m'.1 ∧ ReadAs depth m.2 m'.2

/-- The member takes up more than its value, so there is fuel left for what follows. -/
theorem exists_fuel {depth : Nat} {name : Text} {v : Json} {t : Text} {fuel : Nat}
    (h : (printMember depth name v ++ t).length ≤ fuel) :
    ∃ n, fuel = n + 1 ∧ (print depth v).length ≤ n ∧ t.length ≤ n := by
  simp only [printMember, printText, List.length_append, List.length_cons] at h
  exact ⟨fuel - 1, by omega, by omega, by omega⟩

/-- The members in `members` follow another one; the induction is on them. -/
theorem readMembers_print {depth : Nat} {members members' : List (Text × Json)}
    (h : List.Forall₂ (MemberReadAs (depth + 1)) members members') :
    ∀ m m' : Text × Json, MemberReadAs (depth + 1) m m' → ∀ (fuel : Nat) (rest : Text),
      (printMember (depth + 1) m.1 m.2 ++ printMembers depth members).length ≤ fuel →
      readMembers fuel (printMember (depth + 1) m.1 m.2 ++ (printMembers depth members ++ rest))
        = .ok (m' :: members', rest) := by
  induction h with
  | nil =>
      rintro m ⟨_, w⟩ ⟨rfl, hv⟩ fuel rest hfuel
      obtain ⟨fuel, rfl, hvalue, -⟩ := exists_fuel hfuel
      refine readMembers_last (readName_printMember _ _ _ _) (hv.reads_afterName hvalue _) ?_
      rw [printMembers, List.append_assoc, skipSpace_indent]
      exact skipSpace_of_not_space rfl _
  | @cons next next' members members' hnext hmembers ih =>
      rintro m ⟨_, w⟩ ⟨rfl, hv⟩ fuel rest hfuel
      obtain ⟨fuel, rfl, hvalue, hrest⟩ := exists_fuel hfuel
      rw [printMembers_cons, List.length_cons, List.length_append] at hrest
      have hcomma : skipSpace (printMembers depth (next :: members) ++ rest)
          = .scalar ',' :: (indent (depth + 1) ++ (printMember (depth + 1) next.1 next.2 ++
              (printMembers depth members ++ rest))) := by
        rw [printMembers_cons, List.cons_append, skipSpace_of_not_space rfl]
        simp only [List.append_assoc]
      have hmore := ih next next' hnext fuel rest (by omega)
      refine readMembers_more (readName_printMember _ _ _ _) (hv.reads_afterName hvalue _)
        hcomma ?_
      rw [skipSpace_indent]
      -- Nothing is skipped before the quotation mark that the next member begins with.
      exact hmore

theorem isPlain_printMember {depth : Nat} {v w : Json} (hv : ReadAs depth v w) (name : Text) :
    ∀ c ∈ printMember depth name v, IsPlain c := by
  intro c hc
  simp only [printMember, List.mem_append] at hc
  rcases hc with (hc | hc) | hc
  · exact isPlain_printText name c hc
  · exact isPlain_of_all (t := ": ".toText) rfl c hc
  · exact hv.plain c hc

theorem isPlain_printMembers {depth : Nat} {members members' : List (Text × Json)}
    (h : List.Forall₂ (MemberReadAs (depth + 1)) members members') :
    ∀ c ∈ printMembers depth members, IsPlain c := by
  induction h with
  | nil =>
      intro c hc
      rw [printMembers, List.mem_append] at hc
      rcases hc with hc | hc
      · exact isPlain_indent depth c hc
      · exact isPlain_of_all (t := [.scalar '\x7d']) rfl c hc
  | cons hm _ ih =>
      intro c hc
      rw [printMembers_cons, List.mem_cons, List.mem_append, List.mem_append] at hc
      rcases hc with rfl | hc | hc | hc
      · decide
      · exact isPlain_indent _ c hc
      · exact isPlain_printMember hm.2 _ c hc
      · exact ih c hc

/-- **An object is read member by member, and members of one name come together.** -/
theorem readAs_object {depth : Nat} {members members' : List (Text × Json)}
    (h : List.Forall₂ (MemberReadAs (depth + 1)) members members') :
    ReadAs depth (.object members) (.object (Entries.ofPairs members')) where
  plain := by
    cases h with
    | nil => exact isPlain_of_all rfl
    | cons hm hmembers =>
        intro c hc
        rw [print_object_cons, List.mem_cons, List.mem_append, List.mem_append] at hc
        rcases hc with rfl | hc | hc | hc
        · decide
        · exact isPlain_indent _ c hc
        · exact isPlain_printMember hm.2 _ c hc
        · exact isPlain_printMembers hmembers c hc
  begins := by
    cases h with
    | nil => exact ⟨'\x7b', _, rfl, rfl⟩
    | cons hm hmembers => exact ⟨'\x7b', _, print_object_cons .., rfl⟩
  reads := by
    intro fuel rest hfuel
    cases h with
    | nil =>
        cases fuel with
        | zero => simp [print] at hfuel
        | succ fuel => rfl
    | @cons m m' members members' hm hmembers =>
        rw [print_object_cons, List.length_cons, List.length_append] at hfuel
        obtain ⟨fuel, rfl⟩ : ∃ n, fuel = n + 1 := ⟨fuel - 1, by omega⟩
        have hread := readMembers_print hmembers m m' hm fuel rest (by omega)
        have hopen : skipSpace (indent (depth + 1) ++ (printMember (depth + 1) m.1 m.2 ++
              (printMembers depth members ++ rest)))
            = printMember (depth + 1) m.1 m.2 ++ (printMembers depth members ++ rest) := by
          rw [skipSpace_indent]
          exact skipSpace_of_not_space rfl _
        rw [print_object_cons]
        simp only [List.cons_append, List.append_assoc]
        exact readValue_object hopen hread

/-- **The text of a value is read as a whole,** with its line ended. -/
theorem read_print {v w : Json} (h : ReadAs 0 v w) :
    read (print 0 v ++ [.scalar '\n']) = .ok w := by
  obtain ⟨c, t, hprint, hc⟩ := h.begins
  have hmark : (print 0 v ++ [CodePoint.scalar '\n']).head? ≠ some (.scalar '\ufeff') := by
    intro hhead
    rw [hprint, List.cons_append, List.head?_cons, Option.some.injEq] at hhead
    have hplain := h.plain c (by simp [hprint])
    rw [hhead] at hplain
    exact absurd hplain (by decide)
  have hspace : skipSpace (print 0 v ++ [.scalar '\n']) = print 0 v ++ [.scalar '\n'] := by
    rw [hprint]
    exact skipSpace_of_not_space hc _
  have hread := h.reads (2 * (print 0 v ++ [CodePoint.scalar '\n']).length + 2)
    [.scalar '\n'] (by
    rw [List.length_append]
    omega)
  rw [read, readWhole, if_neg hmark, hspace, hread]
  rfl

end Json

end TerminalMarkup
