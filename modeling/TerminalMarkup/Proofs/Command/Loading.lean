/-
Runs whose settings cannot be loaded.

A run that gets as far as its settings and cannot load them never produces anything: it
ends with code 1, nothing is printed and no file is written.  Whether it also says why
depends on the fault alone, and so on the file.  Where loading breaks off
(`Settings.BreaksOff`) the run breaks off, and in every other case the fault in words is
on standard error.
-/
import TerminalMarkup.Proofs.Command.Invocation
import TerminalMarkup.Proofs.Settings.Loading

namespace TerminalMarkup.Command

/-- What a command looks at before its settings is there. -/
def Ready (w : World) (verb : Verb) (a : Arguments) : Prop :=
  match verb with
  | .convert => ∃ texts, inputs w a.inputNames = .ok texts
  | .fetch => ∃ url, a.operands = [url]
  | .css => a.operands = []

variable {w : World} {verb : Verb} {a : Arguments} {path : Text} {fault : Settings.LoadFault}

theorem settingsFor_of_load_error (overrides : Overrides)
    (hload : Settings.load w.files (Files.plainPath path) = .error fault) :
    settingsFor w.files (some path) overrides = .error (loadEnding fault) := by
  unfold settingsFor
  dsimp only
  rw [hload]

/-- Whichever the command, it ends on settings that cannot be loaded. -/
theorem verbOutcome_of_load_error (hvalues : badValue? w.files verb a = none)
    (hready : Ready w verb a) (hpath : a.value? .config = some path)
    (hload : Settings.load w.files (Files.plainPath path) = .error fault) :
    verbOutcome verb w a = { ending := loadEnding fault } := by
  have hsettings (overrides : Overrides) := settingsFor_of_load_error overrides hload
  cases verb with
  | convert =>
      obtain ⟨texts, htexts⟩ := hready
      simp only [verbOutcome, convert, hvalues, htexts, hpath, hsettings]
  | fetch =>
      obtain ⟨url, hurl⟩ := hready
      simp only [verbOutcome, fetch, hvalues, hurl, hpath, hsettings]
  | css =>
      have hnone : a.operands = [] := hready
      simp only [verbOutcome, css, hvalues, hnone, hpath, hsettings, ne_eq, not_true_eq_false,
        if_false]

theorem isExplained_eq_false_iff
    (hload : Settings.load w.files path = .error fault) :
    fault.isExplained = false ↔ Settings.BreaksOff w.files path := by
  constructor
  · intro h
    exact Settings.load_unexplained_iff.mp ⟨fault, hload, h⟩
  · intro h
    obtain ⟨fault', hload', h'⟩ := Settings.load_unexplained_iff.mpr h
    rw [hload] at hload'
    cases hload'
    exact h'

/--
**A run whose settings cannot be loaded says why, or breaks off,** and which of the two is settled
by what is at the path.  Either way its exit code is 1, nothing is printed and no file is written.
-/
theorem run_of_load_error {arguments : List Text} (hinvokes : Invokes arguments verb a)
    (hvalues : badValue? w.files verb a = none) (hready : Ready w verb a)
    (hpath : a.value? .config = some path)
    (hload : Settings.load w.files (Files.plainPath path) = .error fault) :
    let o := run w arguments
    let breaksOff := Settings.BreaksOff w.files (Files.plainPath path)
    (∀ any, (∃ e, Settings.load w.files any = .error e ∧ e.isExplained = false) ↔
      Settings.BreaksOff w.files any) ∧
    (o.exitCode = 1 ∧ o.stdout = [] ∧ o.files w.files = w.files) ∧
    (¬breaksOff → o.crash? = none ∧
      o.stderr = Plain.plain ("Error: ".toText ++ fault.message ++ "\n".toText)) ∧
    (breaksOff → o.crash? = some (.loading fault) ∧ o.stderr = []) := by
  intro o breaksOff
  have hbreaks : fault.isExplained = false ↔ breaksOff := isExplained_eq_false_iff hload
  have hending : o.ending = loadEnding fault := by
    rw [ending_run hinvokes, verbOutcome_of_load_error hvalues hready hpath hload]
  refine ⟨fun any => Settings.load_unexplained_iff, ?_⟩
  unfold Outcome.exitCode Outcome.stdout Outcome.files Outcome.crash? Outcome.stderr
  rw [hending, loadEnding]
  by_cases hexplained : fault.isExplained = true
  · have hnot : ¬breaksOff := fun h => Bool.false_ne_true ((hbreaks.mpr h).symm.trans hexplained)
    rw [if_pos hexplained]
    exact ⟨⟨rfl, rfl, rfl⟩, fun _ => ⟨rfl, rfl⟩, fun h => absurd h hnot⟩
  · have hbreak : breaksOff := hbreaks.mp (eq_false_of_ne_true hexplained)
    rw [if_neg hexplained]
    exact ⟨⟨rfl, rfl, rfl⟩, fun h => absurd hbreak h, fun _ => ⟨rfl, rfl⟩⟩

/-- A file of bytes that are no text breaks off every command. -/
theorem run_of_load_error_undecodable :
    let w : World :=
      { files := ⟨[(["c.json".toText], .file [0xff])]⟩, respond := fun _ => .failure .connect [] }
    let arguments := ["css".toText, "--config".toText, "c.json".toText]
    let a : Arguments := { given := [⟨.config, some "c.json".toText⟩] }
    let fault : Settings.LoadFault := .undecodable ⟨0, .badStart, [0xff]⟩
    Invokes arguments .css a ∧ badValue? w.files .css a = none ∧ Ready w .css a ∧
      a.value? .config = some "c.json".toText ∧
      Settings.load w.files (Files.plainPath "c.json".toText) = .error fault ∧
      Settings.BreaksOff w.files (Files.plainPath "c.json".toText) ∧
      (run w arguments).exitCode = 1 ∧ (run w arguments).crash? = some (.loading fault) := by
  intro w arguments a fault
  have hinvokes : Invokes arguments .css a :=
    ⟨⟨{ operands := arguments }, _, eq_ok_of_toOption (by decide +kernel), rfl, rfl,
      eq_ok_of_toOption (by decide +kernel)⟩, by decide⟩
  have hvalues : badValue? w.files .css a = none := by decide +kernel
  have hread : w.files.read (Files.plainPath "c.json".toText) = .ok [0xff] :=
    eq_ok_of_toOption (by decide +kernel)
  have hdecode : Utf8.firstError? 0 (Utf8.segments [0xff]) = some ⟨0, .badStart, [0xff]⟩ := by
    decide +kernel
  have hload : Settings.load w.files (Files.plainPath "c.json".toText) = .error fault := by
    simp only [Settings.load_of_read hread, Settings.ofBytes, Utf8.decode, hdecode]
    rfl
  have hpath : a.value? .config = some "c.json".toText := by decide
  have hbreaks := (isExplained_eq_false_iff hload).mp rfl
  obtain ⟨-, ⟨hexit, -⟩, -, hcrash⟩ := run_of_load_error hinvokes hvalues rfl hpath hload
  exact ⟨hinvokes, hvalues, rfl, hpath, hload, hbreaks, hexit, (hcrash hbreaks).1⟩

end TerminalMarkup.Command
