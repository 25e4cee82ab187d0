/-
From the arguments of the program to a command.

The program reads the options before the name of a command, the command reads the rest,
and some options end a run before the command has begun.  `Invokes` says that none did,
so that what is proved about a command holds of the program run with such arguments
(`ending_run`): only the notices that are not asked for are missing.

`Outcome.Alike` is what two runs are compared by: what a script sees of them, which is all
but the words on standard error.
-/
import TerminalMarkup.Command.Run

namespace TerminalMarkup.Command

/-- The arguments call a command with arguments of its own, and ask for no help. -/
structure Invokes (arguments : List Text) (verb : Verb) (a : Arguments) : Prop where
  called : ∃ top rest, Arguments.read Flag.ofProgram false arguments = .ok top ∧
    top.ending? = none ∧ top.operands = verb.name :: rest ∧
    Arguments.read (Flag.ofVerb verb) true rest = .ok a
  noHelp : a.has .help = false

/-- What a command does with its arguments. -/
def verbOutcome (verb : Verb) (w : World) (a : Arguments) : Outcome :=
  match verb with
  | .convert => convert w a
  | .fetch => fetch w a
  | .css => css w a

/-- Whether a result is a certain value can be decided, though results cannot be compared. -/
theorem eq_ok_of_toOption {ε α : Type} {r : Except ε α} {a : α} (h : r.toOption = some a) :
    r = .ok a := by
  cases r with
  | error e => cases h
  | ok b => exact congrArg Except.ok (Option.some.inj h)

theorem ofName?_name (verb : Verb) : Verb.ofName? verb.name = some verb := by
  cases verb <;> rfl

/-- A run that calls a command ends as the command does. -/
theorem ending_run {arguments : List Text} {verb : Verb} {a : Arguments}
    (h : Invokes arguments verb a) (w : World) :
    (run w arguments).ending = (verbOutcome verb w a).ending := by
  obtain ⟨⟨top, rest, hprogram, hending, hoperands, hverb⟩, hhelp⟩ := h
  have hrunVerb : runVerb w verb rest = verbOutcome verb w a := by
    have hnot : ¬a.has .help = true := Bool.eq_false_iff.mp hhelp
    unfold runVerb
    rw [hverb]
    exact if_neg hnot
  unfold run
  rw [hprogram]
  dsimp only
  rw [hending, hoperands]
  dsimp only
  rw [ofName?_name]
  dsimp only
  rw [hrunVerb]

/-! ### Runs that come to the same -/

namespace Outcome

/-- The file that a run writes, and the text it writes there, which may be none for want of
bytes. -/
def written? (o : Outcome) : Option (Files.Location × Text) :=
  match o.ending with
  | .done _ written => written
  | .unwritten (some place) => some (place, [])
  | _ => none

/-- Two runs have the same exit code and the same standard output, and write the same file. -/
structure Alike (o o' : Outcome) : Prop where
  exitCode : o.exitCode = o'.exitCode
  stdout : o.stdout = o'.stdout
  written : o.written? = o'.written?

variable {o o' : Outcome}

theorem Alike.of_ending (h : o.ending = o'.ending) : Alike o o' := by
  refine ⟨?_, ?_, ?_⟩
  · simp only [Outcome.exitCode, h]
  · simp only [Outcome.stdout, h]
  · simp only [Outcome.written?, h]

theorem Alike.trans {o'' : Outcome} (h : Alike o o') (h' : Alike o' o'') : Alike o o'' :=
  ⟨h.exitCode.trans h'.exitCode, h.stdout.trans h'.stdout, h.written.trans h'.written⟩

/-- Whatever two runs break off on, they come to the same. -/
theorem Alike.of_broken {crash crash' : Crash} (h : o.ending = .broken crash)
    (h' : o'.ending = .broken crash') : Alike o o' := by
  refine ⟨?_, ?_, ?_⟩
  · simp only [Outcome.exitCode, h, h']
  · simp only [Outcome.stdout, h, h']
  · simp only [Outcome.written?, h, h']

/-- All errors of usage come to the same. -/
theorem Alike.of_misused {scope scope' : Scope} {fault fault' : UsageFault}
    (h : o.ending = .misused scope fault) (h' : o'.ending = .misused scope' fault') :
    Alike o o' := by
  refine ⟨?_, ?_, ?_⟩
  · simp only [Outcome.exitCode, h, h']
  · simp only [Outcome.stdout, h, h']
  · simp only [Outcome.written?, h, h']

end Outcome

/-- Runs come to the same if the commands they call do. -/
theorem alike_run {arguments arguments' : List Text} {verb verb' : Verb} {a b : Arguments}
    {w w' : World} (h : Invokes arguments verb a) (h' : Invokes arguments' verb' b)
    (hcommands : (verbOutcome verb w a).Alike (verbOutcome verb' w' b)) :
    (run w arguments).Alike (run w' arguments') :=
  (Outcome.Alike.of_ending (ending_run h w)).trans
    (hcommands.trans (Outcome.Alike.of_ending (ending_run h' w').symm))

/-! ### Results -/

section Results

variable {files : Files} {path t : Text} {place : Files.Location}

theorem emit_printed (files : Files) (h : (Utf8.encode? (Plain.plain t)).isSome = true) :
    emit files none t = .done t none := if_pos h

theorem emit_unprinted (files : Files) (h : (Utf8.encode? (Plain.plain t)).isSome = false) :
    emit files none t = .unwritten none := by
  rw [emit, h]
  rfl

theorem emit_written (htarget : files.target (Files.plainPath path) = .ok place)
    {bytes : List UInt8} (h : Utf8.encode? t = some bytes) :
    emit files (some path) t = .done [] (some (place, t)) := by
  simp only [emit, htarget, h, Option.isSome_some, if_true]

theorem emit_unwritten (htarget : files.target (Files.plainPath path) = .ok place)
    (h : Utf8.encode? t = none) : emit files (some path) t = .unwritten (some place) := by
  simp only [emit, htarget, h, Option.isSome_none, Bool.false_eq_true, if_false]

theorem emit_untargeted {fault : Files.Fault}
    (h : files.target (Files.plainPath path) = .error fault) :
    emit files (some path) t = .broken (.writing fault) := by
  simp only [emit, h]

end Results

end TerminalMarkup.Command
