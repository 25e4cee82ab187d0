/-
What a run that fails leaves behind.

Step by step (`act`), a run does nothing to files and to standard output until it has its
whole result.  So a run that fails before has printed nothing, and all files are as they were.
A run that ends well has printed its text, or written it to the output file, and to no other.
The text is made of the world as it was before the run (`Makes`), so it does not matter whether
the output file is also an input or the settings file.

There is one way to fail after that.  A declaration in the settings, or a title, can have a
surrogate in it; then the text has one, too, and no bytes.  That shows when it is to be written, and
by then the output file has been made empty (`Empties`).
-/
import TerminalMarkup.Proofs.Command.Acting

namespace TerminalMarkup.Command

variable {arguments : List Text} {verb : Verb} {a : Arguments} {w : World}

/-! ### Runs that call no command -/

theorem ofName?_eq_some {name : Text} (h : Verb.ofName? name = some verb) : name = verb.name := by
  have hbeq := List.find?_some (p := fun verb : Verb => verb.name == name) h
  exact (eq_of_beq hbeq).symm

/-- What options before a command end a run with is printed. -/
theorem files_of_ending? {top : Arguments} {ending : Ending} (h : top.ending? = some ending)
    (notices : List Notice) (before : Files) :
    Outcome.files { ending, notices } before = before := by
  obtain ⟨g, -, rfl⟩ := Option.map_eq_some_iff.mp h
  split
  · rfl
  · rfl

theorem files_endingWithout (name : Text) (operands : List Text) (notices : List Notice)
    (before : Files) :
    Outcome.files { ending := endingWithout name operands, notices } before = before := by
  unfold endingWithout
  cases Arguments.read Flag.ofProgram false operands with
  | error fault => rfl
  | ok a =>
      dsimp only
      cases hending : a.ending? with
      | none => rfl
      | some ending => exact files_of_ending? hending notices before

/-- A run that calls no command, or asks for help, changes no files. -/
theorem files_of_not_invokes (h : ∀ verb a, ¬Invokes arguments verb a) (w : World)
    (before : Files) : (run w arguments).files before = before := by
  unfold run
  cases hread : Arguments.read Flag.ofProgram false arguments with
  | error fault => rfl
  | ok top =>
  dsimp only
  cases hending : top.ending? with
  | some ending => exact files_of_ending? hending [] before
  | none =>
  cases hoperands : top.operands with
  | nil =>
      dsimp only
      split
      · rfl
      · rfl
  | cons name rest =>
  dsimp only
  cases hverb : Verb.ofName? name with
  | none => exact files_endingWithout name (name :: rest) [] before
  | some verb =>
  obtain rfl := ofName?_eq_some hverb
  dsimp only
  unfold runVerb
  cases hown : Arguments.read (Flag.ofVerb verb) true rest with
  | error fault => rfl
  | ok a =>
  by_cases hhelp : a.has .help = true
  · simp only [if_pos hhelp]
    rfl
  · have hinvokes : Invokes arguments verb a :=
      ⟨⟨top, rest, hread, hending, hoperands, hown⟩, eq_false_of_ne_true hhelp⟩
    exact absurd hinvokes (h verb a)

/-! ### Runs that end well -/

/-- The command `css` has no output file. -/
theorem output_css (h : Invokes arguments .css a) : a.value? .output = none := by
  obtain ⟨⟨top, rest, -, -, -, hread⟩, -⟩ := h
  cases hvalue : a.value? .output with
  | none => rfl
  | some path =>
      have hmem := Arguments.mem_accepted_of_read hread _ (Arguments.mem_flags_of_value? hvalue)
      exact absurd hmem (by decide)

theorem exitCode_run (h : Invokes arguments verb a) (w : World) :
    (run w arguments).exitCode = (verbOutcome verb w a).exitCode := by
  rw [Outcome.exitCode, Outcome.exitCode, ending_run h w]

/-- The run of a command that has made a text ends with it. -/
theorem ending_of_makes (h : Invokes arguments verb a) {settings : Settings} {t : Text}
    (hmakes : Makes w a verb settings t) :
    (run w arguments).ending = emit w.files (a.value? .output) t := by
  refine (ending_run h w).trans (hmakes.ending_eq ?_)
  rintro rfl
  exact output_css h

/-- A command that ends well has made a text. -/
theorem exists_makes (h : Invokes arguments verb a) (hcode : (run w arguments).exitCode = 0) :
    ∃ settings t, Makes w a verb settings t ∧
      (run w arguments).ending = emit w.files (a.value? .output) t := by
  rw [exitCode_run h] at hcode
  rcases fails_or_makes verb w a with hfails | ⟨settings, t, hmakes⟩
  · exact absurd hcode hfails.exitCode
  · exact ⟨settings, t, hmakes, ending_of_makes h hmakes⟩

/-- The bytes of a text were written to the file at a path, and nowhere else is anything
different. -/
structure Wrote (before : Files) (path t : Text) (after : Files) : Prop where
  read : ∃ bytes, Utf8.encode? t = some bytes ∧ after.read path = .ok bytes
  others : ∃ place, before.target path = .ok place ∧ ∀ q, q ≠ place → after.at? q = before.at? q

/-- A run that ends well without an output file has printed its text. -/
theorem printed_of_emit {o : Outcome} {t : Text} (hcode : o.exitCode = 0)
    (hending : o.ending = emit w.files none t) : o.ending = .done t none := by
  cases hbytes : (Utf8.encode? (Plain.plain t)).isSome with
  | true => exact hending.trans (emit_printed _ hbytes)
  | false =>
      rw [emit_unprinted _ hbytes] at hending
      rw [Outcome.exitCode, hending] at hcode
      cases hcode

/-- A run that is cut short by its output path fails. -/
theorem wrote_of_emit {o : Outcome} {path t : Text} (hcode : o.exitCode = 0)
    (hending : o.ending = emit w.files (some path) t) :
    o.stdout = [] ∧ Wrote w.files (Files.plainPath path) t (o.files w.files) := by
  cases htarget : w.files.target (Files.plainPath path) with
  | error fault =>
      rw [emit_untargeted htarget] at hending
      rw [Outcome.exitCode, hending] at hcode
      cases hcode
  | ok place =>
  cases hbytes : Utf8.encode? t with
  | none =>
      rw [emit_unwritten htarget hbytes] at hending
      rw [Outcome.exitCode, hending] at hcode
      cases hcode
  | some bytes =>
      rw [emit_written htarget hbytes] at hending
      have hfiles : o.files w.files = w.files.put place bytes := by
        rw [Outcome.files, hending]
        simp only [Files.store, hbytes, Option.getD_some]
      have hstdout : o.stdout = Plain.plain [] := by
        rw [Outcome.stdout, hending]
      have hleads := Files.leads_of_target htarget
      rw [hstdout, hfiles]
      exact ⟨Plain.plain_of_not_mem List.not_mem_nil, ⟨bytes, hbytes, Files.read_put htarget _⟩,
        place, htarget, fun q hq => Files.at?_put_of_ne hleads hq _⟩

/-! ### Texts without bytes -/

/-- The run makes a text for the file at a place, and the text has no bytes. -/
inductive Empties (w : World) (arguments : List Text) (place : Files.Location) : Prop
  | intro {verb : Verb} {a : Arguments} {settings : Settings} {t path : Text}
      (hinvokes : Invokes arguments verb a) (hmakes : Makes w a verb settings t)
      (houtput : a.value? .output = some path)
      (htarget : w.files.target (Files.plainPath path) = .ok place)
      (hbytes : Utf8.encode? t = none)

theorem exists_invokes_of_unwritten {place : Files.Location}
    (h : (run w arguments).ending = .unwritten (some place)) :
    ∃ verb a, Invokes arguments verb a := by
  by_contra hnone
  have hfiles := files_of_not_invokes (fun verb a hinvokes => hnone ⟨verb, a, hinvokes⟩) w {}
  rw [Outcome.files, h] at hfiles
  exact absurd (congrArg Files.entries hfiles) (List.cons_ne_nil _ _)

/-- **A run makes its output file empty exactly for a text without bytes.** -/
theorem ending_unwritten_iff {place : Files.Location} :
    (run w arguments).ending = .unwritten (some place) ↔ Empties w arguments place := by
  constructor
  · intro h
    obtain ⟨verb, a, hinvokes⟩ := exists_invokes_of_unwritten h
    rcases fails_or_makes verb w a with hfails | ⟨settings, t, hmakes⟩
    · exact absurd ((ending_run hinvokes w).symm.trans h) (hfails.written _)
    have hending := (ending_of_makes hinvokes hmakes).symm.trans h
    cases houtput : a.value? .output with
    | none =>
        rw [houtput, emit] at hending
        split at hending <;> cases hending
    | some path =>
    rw [houtput] at hending
    cases htarget : w.files.target (Files.plainPath path) with
    | error fault =>
        rw [emit_untargeted htarget] at hending
        cases hending
    | ok place' =>
    cases hbytes : Utf8.encode? t with
    | none =>
        rw [emit_unwritten htarget hbytes] at hending
        cases hending
        exact ⟨hinvokes, hmakes, houtput, htarget, hbytes⟩
    | some bytes =>
        rw [emit_written htarget hbytes] at hending
        cases hending
  · intro h
    cases h with
    | intro hinvokes hmakes houtput htarget hbytes =>
        rw [ending_of_makes hinvokes hmakes, houtput]
        exact emit_unwritten htarget hbytes

/-- Settings with half a pair in a declaration, and an output file that is there. -/
theorem empties_lone_surrogate :
    let w : World :=
      { files := ⟨[(["c".toText], .file "\x7b\"bold_style\": \"\\ud800\"\x7d".toUTF8.toList),
          (["p".toText], .file [0x61])]⟩
        stdin := [0x1b, 0x5b, 0x31, 0x6d, 0x79]
        respond := fun _ => .failure .connect [] }
    Empties w ["convert".toText, "--config=c".toText, "-o".toText, ['p']] ["p".toText] := by
  intro w
  exact ending_unwritten_iff.mp (by decide +kernel)

/-! ### All runs -/

/--
**A run that fails leaves no trace, unless its text has no bytes, and one that ends well changes at
most the output file.**

Taken step by step, a run comes to its outcome.  If it fails or breaks off, nothing was printed
and all files are as they were, with one exception: if it made a text without bytes for an output
file, it breaks off on that, and this file, and no other, is different: it is there, and empty.  If
no command was called, all files are as they were.  If a command ends well, it made a text of the
world before the run; without an output file the text is printed and no file is different, and with
one the text is in this file, nothing else is different, and nothing is printed.
-/
theorem act_traceless (w : World) (arguments : List Text) :
    let o := run w arguments
    let played := (act w.respond arguments).play w.scene
    let after := played.2
    Leaves w.scene o played ∧
    (o.exitCode ≠ 0 ∨ o.crash? ≠ none → after.stdout = [] ∧
      ((∀ place, ¬Empties w arguments place) → after.files = w.files)) ∧
    (∀ place, Empties w arguments place →
      o.exitCode = 1 ∧ o.crash? = some .unencodable ∧ after.files = w.files.put place [] ∧
      ∀ q, q ≠ place → after.files.at? q = w.files.at? q) ∧
    ((∀ verb a, ¬Invokes arguments verb a) → after.files = w.files) ∧
    ∀ verb a, Invokes arguments verb a → o.exitCode = 0 →
      ∃ settings t, Makes w a verb settings t ∧
        (a.value? .output = none → after.stdout = Plain.plain t ∧ after.files = w.files) ∧
        ∀ path, a.value? .output = some path →
          after.stdout = [] ∧ Wrote w.files (Files.plainPath path) t after.files := by
  intro o played after
  have hleaves : Leaves w.scene o played := leaves_act w arguments
  have hstdout : after.stdout = o.stdout := hleaves.stdout
  have hfiles : after.files = o.files w.files := hleaves.files
  rw [hstdout, hfiles]
  refine ⟨hleaves, ?_, ?_, ?_, ?_⟩
  · intro hfails
    have hcode : o.exitCode ≠ 0 := by
      rcases hfails with hcode | hcrash
      · exact hcode
      · rw [Outcome.exitCode_of_crash hcrash]
        exact Nat.one_ne_zero
    refine ⟨Outcome.stdout_of_fails hcode, fun hnone => ?_⟩
    rcases Outcome.files_of_fails hcode w.files with hsame | ⟨place, hending, -⟩
    · exact hsame
    · exact absurd (ending_unwritten_iff.mp hending) (hnone place)
  · intro place hempties
    have hending : o.ending = .unwritten (some place) := ending_unwritten_iff.mpr hempties
    obtain ⟨-, -, -, htarget, -⟩ := hempties
    have hemptied : o.files w.files = w.files.put place [] := by
      rw [Outcome.files, hending]
    rw [Outcome.exitCode, Outcome.crash?, hemptied, hending]
    exact ⟨rfl, rfl, rfl, fun q hq => Files.at?_put_of_ne (Files.leads_of_target htarget) hq _⟩
  · intro hnone
    exact files_of_not_invokes hnone w w.files
  · intro verb a hinvokes hcode
    obtain ⟨settings, t, hmakes, hending⟩ := exists_makes hinvokes hcode
    refine ⟨settings, t, hmakes, ?_, ?_⟩
    · intro houtput
      rw [houtput] at hending
      rw [Outcome.stdout, Outcome.files, printed_of_emit hcode hending]
      exact ⟨rfl, rfl⟩
    · intro path houtput
      rw [houtput] at hending
      exact wrote_of_emit hcode hending

/-- A file that is the input, the settings and the output. -/
theorem act_traceless_in_place :
    let w : World :=
      { files := ⟨[(["c".toText], .file "\x7b\"<\": 1\x7d".toUTF8.toList)]⟩
        respond := fun _ => .failure .connect [] }
    let arguments :=
      ["convert".toText, ['c'], "--config".toText, ['c'], "-o".toText, "./c".toText]
    let a : Arguments :=
      { given := [⟨.config, some ['c']⟩, ⟨.output, some "./c".toText⟩], operands := [['c']] }
    let after := ((act w.respond arguments).play w.scene).2
    Invokes arguments .convert a ∧ (run w arguments).exitCode = 0 ∧
      ∃ settings t, Makes w a .convert settings t ∧ after.stdout = [] ∧
        Wrote w.files ['c'] t after.files := by
  intro w arguments a after
  have hinvokes : Invokes arguments .convert a :=
    ⟨⟨{ operands := arguments }, _, eq_ok_of_toOption (by decide +kernel), rfl, rfl,
      eq_ok_of_toOption (by decide +kernel)⟩, by decide⟩
  have hcode : (run w arguments).exitCode = 0 := by decide +kernel
  obtain ⟨-, -, -, -, hends⟩ := act_traceless w arguments
  obtain ⟨settings, t, hmakes, -, hwrote⟩ := hends .convert a hinvokes hcode
  exact ⟨hinvokes, hcode, settings, t, hmakes, hwrote "./c".toText rfl⟩

end TerminalMarkup.Command
