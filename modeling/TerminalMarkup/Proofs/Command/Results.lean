/-
What a command that ends well comes to.

A command ends in one of two ways: with a fault, and then nothing is printed and no file is
written, or with the text that it makes of its inputs, its settings and its options, which
goes to the output file or is printed, if it has bytes (`fails_or_makes`).  `Makes` says
which text that is.  It is made of the world as the command found it.
-/
import TerminalMarkup.Proofs.Command.Arguments
import TerminalMarkup.Proofs.Command.Overrides

namespace TerminalMarkup.Command

/-- The text that a command makes of a world, and the settings in force. -/
inductive Makes (w : World) (a : Arguments) : Verb → Settings → Text → Prop
  | convert {settings : Settings} {notices : List Notice} {texts : List Text}
      (hvalues : badValue? w.files .convert a = none) (hinputs : inputs w a.inputNames = .ok texts)
      (hsettings : settingsFor w.files (a.value? .config) a.overrides = .ok (settings, notices))
      (hfits : Numeral.fitsWord a.chunkSize = true) :
      Makes w a .convert settings
        (document settings a.presentation (convertTexts settings a.chunkSize.toNat texts).html)
  | fetch {settings : Settings} {notices : List Notice} {url t : Text}
      (hvalues : badValue? w.files .fetch a = none) (hurl : a.operands = [url])
      (hsettings : settingsFor w.files (a.value? .config) a.overrides = .ok (settings, notices))
      (ht : Download.fetch w.respond url [] = .ok t) :
      Makes w a .fetch settings
        (document settings (a.presentation.titled url) (Converter.convertAll settings t).html)
  | css {settings : Settings} {notices : List Notice}
      (hvalues : badValue? w.files .css a = none) (hnone : a.operands = [])
      (hsettings : settingsFor w.files (a.value? .config) {} = .ok (settings, notices)) :
      Makes w a .css settings (Html.stylesheet settings)

variable {w : World} {verb : Verb} {a : Arguments} {files : Files} {ending : Ending}
  {settings : Settings} {t : Text}

/-! ### Faults -/

/-- A run that fails prints nothing. -/
theorem Outcome.stdout_of_fails {o : Outcome} (h : o.exitCode ≠ 0) : o.stdout = [] := by
  obtain ⟨ending, notices⟩ := o
  cases ending with
  | done printed written => exact absurd rfl h
  | help scope code =>
      cases code with
      | zero => exact absurd rfl h
      | succ code => rfl
  | _ => rfl

/-- A run that fails writes nothing, but that it may have made a file empty for a text without
bytes. -/
theorem Outcome.files_of_fails {o : Outcome} (h : o.exitCode ≠ 0) (before : Files) :
    o.files before = before ∨
      ∃ place, o.ending = .unwritten (some place) ∧ o.files before = before.put place [] := by
  obtain ⟨ending, notices⟩ := o
  cases ending with
  | done printed written => exact absurd rfl h
  | unwritten emptied =>
      cases emptied with
      | none => exact Or.inl rfl
      | some place => exact Or.inr ⟨place, rfl, rfl⟩
  | _ => exact Or.inl rfl

/-- A run that breaks off fails. -/
theorem Outcome.exitCode_of_crash {o : Outcome} (h : o.crash? ≠ none) : o.exitCode = 1 := by
  obtain ⟨ending, notices⟩ := o
  cases ending with
  | broken crash => rfl
  | unwritten emptied => rfl
  | _ => exact absurd rfl h

/-- The ending is that of a run that fails before it has made a text. -/
structure Ending.Fails (ending : Ending) : Prop where
  exitCode : ({ ending } : Outcome).exitCode ≠ 0
  written : ∀ emptied, ending ≠ .unwritten emptied

theorem fails_misused (scope : Scope) (fault : UsageFault) : (Ending.misused scope fault).Fails :=
  ⟨Nat.succ_ne_zero 1, fun _ => Ending.noConfusion⟩

theorem fails_refused (code : Nat) (message : Text) : (Ending.refused (code + 1) message).Fails :=
  ⟨Nat.succ_ne_zero code, fun _ => Ending.noConfusion⟩

theorem fails_broken (crash : Crash) : (Ending.broken crash).Fails :=
  ⟨Nat.succ_ne_zero 0, fun _ => Ending.noConfusion⟩

theorem fails_of_badValue? (h : badValue? files verb a = some ending) : ending.Fails := by
  obtain ⟨fault, -, rfl⟩ := Option.map_eq_some_iff.mp h
  cases fault with
  | inl fault => exact fails_misused _ _
  | inr crash => exact fails_broken _

theorem fails_inputEnding (name : Text) (fault : Files.Fault) : (inputEnding name fault).Fails := by
  cases fault with
  | embeddedNul => exact fails_broken _
  | _ => exact fails_misused _ _

theorem fails_of_inputs {names : List Text} (h : inputs w names = .error ending) :
    ending.Fails := by
  induction names generalizing w with
  | nil => cases h
  | cons name names ih =>
      by_cases hname : name = stdinName
      · rw [inputs, if_pos hname] at h
        exact ih (Settings.map_eq_error.mp h)
      cases hread : w.files.read name with
      | ok bytes =>
          rw [inputs, if_neg hname, hread] at h
          exact ih (Settings.map_eq_error.mp h)
      | error fault =>
          rw [inputs_of_error hname hread] at h
          cases h
          exact fails_inputEnding name fault

theorem fails_loadEnding (fault : Settings.LoadFault) : (loadEnding fault).Fails := by
  unfold loadEnding
  split
  · exact fails_refused 0 _
  · exact fails_broken _

theorem fails_of_settingsFor {path : Option Text} {overrides : Overrides}
    (h : settingsFor files path overrides = .error ending) : ending.Fails := by
  unfold settingsFor at h
  split at h
  · cases h
  · split at h
    · cases h
    · cases h
      exact fails_loadEnding _

/-! ### The commands step by step -/

section Commands

variable {texts : List Text} {notices : List Notice} {url : Text}

theorem convert_of_badValue? (h : badValue? w.files .convert a = some ending) :
    convert w a = { ending } := by
  simp only [convert, h]

theorem convert_of_inputs_error (hvalues : badValue? w.files .convert a = none)
    (hinputs : inputs w a.inputNames = .error ending) : convert w a = { ending } := by
  simp only [convert, hvalues, hinputs]

theorem convert_of_settings_error (hvalues : badValue? w.files .convert a = none)
    (hinputs : inputs w a.inputNames = .ok texts)
    (hsettings : settingsFor w.files (a.value? .config) a.overrides = .error ending) :
    convert w a = { ending } := by
  simp only [convert, hvalues, hinputs, hsettings]

theorem convert_of_settings (hvalues : badValue? w.files .convert a = none)
    (hinputs : inputs w a.inputNames = .ok texts)
    (hsettings : settingsFor w.files (a.value? .config) a.overrides = .ok (settings, notices)) :
    convert w a =
      if Numeral.fitsWord a.chunkSize then
        let out := convertTexts settings a.chunkSize.toNat texts
        { ending := emit w.files (a.value? .output) (document settings a.presentation out.html)
          notices := notices ++ out.notices }
      else { ending := .broken .chunkTooWide, notices } := by
  cases hfits : Numeral.fitsWord a.chunkSize with
  | true =>
      simp only [convert, hvalues, hinputs, hsettings, hfits]
      rfl
  | false =>
      simp only [convert, hvalues, hinputs, hsettings, hfits]
      rfl

/-- What is wrong with the operands of `fetch`, which has one. -/
def urlFault? : List Text → Option UsageFault
  | [] => some .missingUrl
  | [_] => none
  | _ :: extra :: more => some (.extraOperands (extra :: more))

theorem urlFault?_eq_none_iff {operands : List Text} :
    urlFault? operands = none ↔ ∃ url, operands = [url] := by
  match operands with
  | [] => simp [urlFault?]
  | [url] => simp [urlFault?]
  | _ :: _ :: _ => simp [urlFault?]

theorem fails_downloadEnding (fault : Download.Fault) : (downloadEnding fault).Fails := by
  unfold downloadEnding
  split
  · exact fails_refused 1 _
  · exact fails_broken _

theorem fetch_of_badValue? (h : badValue? w.files .fetch a = some ending) :
    fetch w a = { ending } := by
  simp only [fetch, h]

theorem fetch_of_urlFault? {fault : UsageFault} (hvalues : badValue? w.files .fetch a = none)
    (h : urlFault? a.operands = some fault) :
    fetch w a = { ending := .misused (.verb .fetch) fault } := by
  match hoperands : a.operands with
  | [] =>
      rw [hoperands] at h
      cases h
      simp only [fetch, hvalues, hoperands]
  | [url] =>
      rw [hoperands] at h
      cases h
  | _ :: extra :: more =>
      rw [hoperands] at h
      cases h
      simp only [fetch, hvalues, hoperands]

theorem fetch_of_settings_error (hvalues : badValue? w.files .fetch a = none)
    (hurl : a.operands = [url])
    (hsettings : settingsFor w.files (a.value? .config) a.overrides = .error ending) :
    fetch w a = { ending } := by
  simp only [fetch, hvalues, hurl, hsettings]

theorem fetch_of_settings (hvalues : badValue? w.files .fetch a = none)
    (hurl : a.operands = [url])
    (hsettings : settingsFor w.files (a.value? .config) a.overrides = .ok (settings, notices)) :
    fetch w a =
      match Download.fetch w.respond url [] with
      | .error fault => { ending := downloadEnding fault, notices }
      | .ok t =>
        let out := Converter.convertAll settings t
        { ending := emit w.files (a.value? .output)
            (document settings (a.presentation.titled url) out.html)
          notices := notices ++ out.notices } := by
  simp only [fetch, hvalues, hurl, hsettings]
  cases Download.fetch w.respond url [] with
  | error fault => rfl
  | ok t => rfl

theorem css_of_badValue? (h : badValue? w.files .css a = some ending) : css w a = { ending } := by
  simp only [css, h]

theorem css_of_operands (hvalues : badValue? w.files .css a = none) (h : a.operands ≠ []) :
    css w a = { ending := .misused (.verb .css) (.extraOperands a.operands) } := by
  simp only [css, hvalues, if_pos h]

theorem css_of_settings_error (hvalues : badValue? w.files .css a = none) (h : a.operands = [])
    (hsettings : settingsFor w.files (a.value? .config) {} = .error ending) :
    css w a = { ending } := by
  simp only [css, hvalues, if_neg (not_not_intro h), hsettings]

theorem css_of_settings (hvalues : badValue? w.files .css a = none) (h : a.operands = [])
    (hsettings : settingsFor w.files (a.value? .config) {} = .ok (settings, notices)) :
    css w a = { ending := emit w.files none (Html.stylesheet settings), notices } := by
  simp only [css, hvalues, if_neg (not_not_intro h), hsettings]

end Commands

/-! ### The two ways to end -/

theorem convert_cases :
    (convert w a).ending.Fails ∨ ∃ settings t, Makes w a .convert settings t := by
  cases hvalues : badValue? w.files .convert a with
  | some ending =>
      rw [convert_of_badValue? hvalues]
      exact Or.inl (fails_of_badValue? hvalues)
  | none =>
  cases hinputs : inputs w a.inputNames with
  | error ending =>
      rw [convert_of_inputs_error hvalues hinputs]
      exact Or.inl (fails_of_inputs hinputs)
  | ok texts =>
  cases hsettings : settingsFor w.files (a.value? .config) a.overrides with
  | error ending =>
      rw [convert_of_settings_error hvalues hinputs hsettings]
      exact Or.inl (fails_of_settingsFor hsettings)
  | ok loaded =>
  obtain ⟨settings, notices⟩ := loaded
  by_cases hfits : Numeral.fitsWord a.chunkSize = true
  · exact Or.inr ⟨settings, _, .convert hvalues hinputs hsettings hfits⟩
  · rw [convert_of_settings hvalues hinputs hsettings, if_neg hfits]
    exact Or.inl (fails_broken _)

theorem fetch_cases : (fetch w a).ending.Fails ∨ ∃ settings t, Makes w a .fetch settings t := by
  cases hvalues : badValue? w.files .fetch a with
  | some ending =>
      rw [fetch_of_badValue? hvalues]
      exact Or.inl (fails_of_badValue? hvalues)
  | none =>
  cases hfault : urlFault? a.operands with
  | some fault =>
      rw [fetch_of_urlFault? hvalues hfault]
      exact Or.inl (fails_misused _ _)
  | none =>
  obtain ⟨url, hurl⟩ := urlFault?_eq_none_iff.mp hfault
  cases hsettings : settingsFor w.files (a.value? .config) a.overrides with
  | error ending =>
      rw [fetch_of_settings_error hvalues hurl hsettings]
      exact Or.inl (fails_of_settingsFor hsettings)
  | ok loaded =>
  obtain ⟨settings, notices⟩ := loaded
  cases ht : Download.fetch w.respond url [] with
  | error fault =>
      rw [fetch_of_settings hvalues hurl hsettings, ht]
      exact Or.inl (fails_downloadEnding fault)
  | ok t => exact Or.inr ⟨settings, _, .fetch hvalues hurl hsettings ht⟩

theorem css_cases : (css w a).ending.Fails ∨ ∃ settings t, Makes w a .css settings t := by
  cases hvalues : badValue? w.files .css a with
  | some ending =>
      rw [css_of_badValue? hvalues]
      exact Or.inl (fails_of_badValue? hvalues)
  | none =>
  by_cases hnone : a.operands = []
  · cases hsettings : settingsFor w.files (a.value? .config) {} with
    | error ending =>
        rw [css_of_settings_error hvalues hnone hsettings]
        exact Or.inl (fails_of_settingsFor hsettings)
    | ok loaded => exact Or.inr ⟨loaded.1, _, .css hvalues hnone hsettings⟩
  · rw [css_of_operands hvalues hnone]
    exact Or.inl (fails_misused _ _)

/-- **A command fails, or makes a text.** -/
theorem fails_or_makes (verb : Verb) (w : World) (a : Arguments) :
    (verbOutcome verb w a).ending.Fails ∨ ∃ settings t, Makes w a verb settings t := by
  cases verb with
  | convert => exact convert_cases
  | fetch => exact fetch_cases
  | css => exact css_cases

/-- A command that makes a text ends with it. -/
theorem Makes.ending_eq (h : Makes w a verb settings t)
    (hcss : verb = .css → a.value? .output = none) :
    (verbOutcome verb w a).ending = emit w.files (a.value? .output) t := by
  cases h with
  | convert hvalues hinputs hsettings hfits =>
      rw [verbOutcome, convert_of_settings hvalues hinputs hsettings, if_pos hfits]
  | fetch hvalues hurl hsettings ht =>
      rw [verbOutcome, fetch_of_settings hvalues hurl hsettings, ht]
  | css hvalues hnone hsettings =>
      rw [verbOutcome, css_of_settings hvalues hnone hsettings, hcss rfl]

end TerminalMarkup.Command
