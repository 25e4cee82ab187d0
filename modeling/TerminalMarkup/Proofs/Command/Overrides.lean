/-
Options and settings files are two ways to say the same.

A command whose options change its settings does what it does without them, given a
settings file that says what they say (`run_overrides`).  That file is saved and loaded
again, so the settings of the second run are the ones the first run makes of its own, and
from there on a command looks at its settings and at options that both runs have.  The one
thing that is not kept are surrogate pairs in schemes that are given, and no address has
such a scheme.

What is left to see is that nothing else notices the file.  No value gets better or worse
by it, results can be written where they could be before, and an input that could not be
read still cannot be, though perhaps for another reason.
-/
import TerminalMarkup.Proofs.Command.Arguments
import TerminalMarkup.Proofs.Command.Invocation
import TerminalMarkup.Proofs.Converter.Addresses
import TerminalMarkup.Proofs.Entries
import TerminalMarkup.Proofs.Settings.Loading
import TerminalMarkup.Proofs.Settings.Surrogates

namespace TerminalMarkup.Command

/-! ### Edited settings -/

/-- The options that settings come from. -/
def Flag.bearsOnSettings : Flag → Bool
  | .classes | .noEscape | .allowScheme | .config => true
  | _ => false

/-- The second settings are the first, edited to say what the options of the arguments say. -/
structure Edited (a : Arguments) (s s' : Settings) : Prop where
  useClasses : s'.useClasses = true ↔ a.has .classes = true ∨ s.useClasses = true
  escapeHtml : s'.escapeHtml = false ↔ a.has .noEscape = true ∨ s.escapeHtml = false
  /-- Schemes that are given replace the list, in the order in which they first come. -/
  allowList : s'.allowList.entries =
    if a.values .allowScheme = [] then s.allowList.entries
    else (a.values .allowScheme).eraseDups.map (·, true)
  boldStyle : s'.boldStyle = s.boldStyle
  faintStyle : s'.faintStyle = s.faintStyle
  italicStyle : s'.italicStyle = s.italicStyle
  underlineStyle : s'.underlineStyle = s.underlineStyle

variable {a b : Arguments} {s s' s'' : Settings}

theorem Edited.unique (h : Edited a s s') (h' : Edited a s s'') : s' = s'' := by
  have hclasses : s'.useClasses = s''.useClasses :=
    Bool.eq_iff_iff.mpr (h.useClasses.trans h'.useClasses.symm)
  have hescape : s'.escapeHtml = s''.escapeHtml := by
    have hiff := h.escapeHtml.trans h'.escapeHtml.symm
    rw [← Bool.not_eq_true, ← Bool.not_eq_true, Decidable.not_iff_not] at hiff
    exact Bool.eq_iff_iff.mpr hiff
  have hlist := h.allowList.trans h'.allowList.symm
  have hbold := h.boldStyle.trans h'.boldStyle.symm
  have hfaint := h.faintStyle.trans h'.faintStyle.symm
  have hitalic := h.italicStyle.trans h'.italicStyle.symm
  have hunderline := h.underlineStyle.trans h'.underlineStyle.symm
  obtain ⟨_, _, ⟨entries, distinct⟩, _, _, _, _⟩ := s'
  obtain ⟨_, _, ⟨entries', distinct'⟩, _, _, _, _⟩ := s''
  cases hclasses
  cases hescape
  cases hlist
  cases hbold
  cases hfaint
  cases hitalic
  cases hunderline
  rfl

/-- What a run makes of the settings it loads is the settings edited. -/
theorem edited_apply (a : Arguments) (s : Settings) : Edited a s (a.overrides.apply s) where
  useClasses := by
    rw [Overrides.apply, Bool.or_eq_true]
    exact Or.comm
  escapeHtml := by
    rw [Overrides.apply, Bool.and_eq_false_iff, Bool.not_eq_false']
    exact Or.comm
  allowList := by
    have hnew : (AllowList.ofSchemes (a.values .allowScheme)).entries
        = (a.values .allowScheme).eraseDups.map (·, true) := Entries.ofPairs_same _ true
    rw [Overrides.apply, Arguments.overrides]
    split
    · rfl
    · exact hnew
  boldStyle := rfl
  faintStyle := rfl
  italicStyle := rfl
  underlineStyle := rfl

theorem Edited.styleTexts (h : Edited a s s') : s'.styleTexts = s.styleTexts := by
  rw [Settings.styleTexts, h.boldStyle, h.faintStyle, h.italicStyle, h.underlineStyle]
  rfl

/-! ### A tree with one more file -/

variable {files files' : Files}

/-- Files can be written to the same places in both trees. -/
def SameTargets (files files' : Files) : Prop :=
  ∀ path place, files.target path = .ok place ↔ files'.target path = .ok place

/-- What can be read under the names, standard input apart, is the same in both trees. -/
def SameInputs (files files' : Files) (names : List Text) : Prop :=
  ∀ name ∈ names, name ≠ stdinName →
    ∀ bytes, files.read name = .ok bytes ↔ files'.read name = .ok bytes

theorem emit_alike (h : SameTargets files files') (output : Option Text) (t : Text)
    (notices notices' : List Notice) :
    Outcome.Alike ⟨emit files output t, notices⟩ ⟨emit files' output t, notices'⟩ := by
  cases output with
  | none => exact .of_ending rfl
  | some path =>
      cases htarget : files.target (Files.plainPath path) with
      | ok place =>
          have htarget' := (h _ place).mp htarget
          refine .of_ending ?_
          simp only [emit, htarget, htarget']
      | error fault =>
          cases htarget' : files'.target (Files.plainPath path) with
          | ok place => cases htarget.symm.trans ((h _ place).mpr htarget')
          | error fault' =>
              have hbroken : emit files (some path) t = .broken (.writing fault) := by
                simp only [emit, htarget]
              have hbroken' : emit files' (some path) t = .broken (.writing fault') := by
                simp only [emit, htarget']
              exact .of_broken hbroken hbroken'

theorem inputs_of_error {w : World} {name : Text} {names : List Text} {fault : Files.Fault}
    (hname : name ≠ stdinName) (h : w.files.read name = .error fault) :
    inputs w (name :: names) = .error (inputEnding name fault) := by
  rw [inputs, if_neg hname, h]

/-- A name that cannot be read in either tree ends both runs alike, whatever the reasons are. -/
theorem inputEnding_alike {name : Text} {fault fault' : Files.Fault}
    (h : files.read name = .error fault) (h' : files'.read name = .error fault') :
    Outcome.Alike { ending := inputEnding name fault } { ending := inputEnding name fault' } := by
  have hnul : fault = .embeddedNul ↔ fault' = .embeddedNul := by
    have hread : files.read name = .error .embeddedNul ↔ files'.read name = .error .embeddedNul :=
      Files.read_embeddedNul_iff.trans Files.read_embeddedNul_iff.symm
    rw [h, h'] at hread
    simpa using hread
  have hmisused : ∀ any, any ≠ Files.Fault.embeddedNul →
      inputEnding name any = .misused (.verb .convert) (.badInput name any) := by
    intro any hany
    cases any with
    | embeddedNul => exact absurd rfl hany
    | missing => rfl
    | notDirectory => rfl
    | isDirectory => rfl
  by_cases hfault : fault = .embeddedNul
  · rw [hfault, hnul.mp hfault]
    exact .of_ending rfl
  · have hfault' : fault' ≠ .embeddedNul := fun h => hfault (hnul.mpr h)
    exact .of_misused (hmisused fault hfault) (hmisused fault' hfault')

/-- Two readings give the same texts, or errors that come to the same. -/
def SameReading (r r' : Except Ending (List Text)) : Prop :=
  (∃ texts, r = .ok texts ∧ r' = .ok texts) ∨
    ∃ e e', r = .error e ∧ r' = .error e' ∧ Outcome.Alike { ending := e } { ending := e' }

theorem SameReading.map {r r' : Except Ending (List Text)} (h : SameReading r r')
    (g : List Text → List Text) : SameReading (r.map g) (r'.map g) := by
  rcases h with ⟨texts, rfl, rfl⟩ | ⟨e, e', rfl, rfl, halike⟩
  · exact Or.inl ⟨g texts, rfl, rfl⟩
  · exact Or.inr ⟨e, e', rfl, rfl, halike⟩

theorem inputs_alike {w w' : World} {names : List Text} (hstdin : w.stdin = w'.stdin)
    (h : SameInputs w.files w'.files names) : SameReading (inputs w names) (inputs w' names) := by
  -- Standard input is used up on the way, so the worlds change with the names.
  induction names generalizing w w' with
  | nil => exact Or.inl ⟨[], rfl, rfl⟩
  | cons name names ih =>
      have hrest : SameInputs w.files w'.files names := fun other hother =>
        h other (List.mem_cons_of_mem name hother)
      by_cases hname : name = stdinName
      · rw [inputs, inputs, if_pos hname, if_pos hname, hstdin]
        exact (@ih { w with stdin := [] } { w' with stdin := [] } rfl hrest).map _
      cases hread : w.files.read name with
      | ok bytes =>
          have hread' := (h name List.mem_cons_self hname bytes).mp hread
          rw [inputs, inputs, if_neg hname, if_neg hname, hread, hread']
          exact (ih hstdin hrest).map _
      | error fault =>
          cases hread' : w'.files.read name with
          | ok bytes =>
              cases hread.symm.trans ((h name List.mem_cons_self hname bytes).mpr hread')
          | error fault' =>
              exact Or.inr ⟨_, _, inputs_of_error hname hread, inputs_of_error hname hread',
                inputEnding_alike hread hread'⟩

/-! ### Commands -/

/-- Two commands that differ at most in where their settings come from, in worlds that differ at
most in a file.  The settings may differ in what they say of schemes that no address has. -/
structure Matched (verb : Verb) (w w' : World) (a b : Arguments) (s : Settings) (list : AllowList) :
    Prop where
  stdin : w.stdin = w'.stdin
  respond : w.respond = w'.respond
  targets : SameTargets w.files w'.files
  values : badValue? w.files verb a = badValue? w'.files verb b
  operands : a.operands = b.operands
  presentation : a.presentation = b.presentation
  chunkSize : a.chunkSize = b.chunkSize
  settings : ∃ notices, settingsFor w.files (a.value? .config) a.overrides = .ok (s, notices)
  settings' : ∃ notices, settingsFor w'.files (b.value? .config) b.overrides
    = .ok ({ s with allowList := list }, notices)
  lists : s.allowList.AgreeOnAddresses list

variable {w w' : World} {list : AllowList}

theorem convertTexts_html_of_agree (h : s.allowList.AgreeOnAddresses list) (size : Nat)
    (texts : List Text) :
    (convertTexts { s with allowList := list } size texts).html
      = (convertTexts s size texts).html := by
  refine Converter.run_html_of_agree h fun step hstep => ?_
  rcases List.mem_append.mp hstep with hstep | hstep
  · obtain ⟨chunk, -, rfl⟩ := List.mem_map.mp hstep
    trivial
  · rw [List.mem_singleton.mp hstep]
    trivial

theorem convert_alike (h : Matched .convert w w' a b s list)
    (hinputs : SameInputs w.files w'.files a.operands) : (convert w a).Alike (convert w' b) := by
  obtain ⟨notices, hsettings⟩ := h.settings
  obtain ⟨notices', hsettings'⟩ := h.settings'
  cases hvalues : badValue? w.files .convert a with
  | some ending =>
      refine .of_ending ?_
      simp only [convert, hvalues, ← h.values]
  | none =>
      have hsame : b.inputNames = a.inputNames := by
        rw [Arguments.inputNames, Arguments.inputNames, h.operands]
      have hnames : SameInputs w.files w'.files a.inputNames := by
        unfold Arguments.inputNames
        split
        · intro name hname hne
          exact absurd (List.mem_singleton.mp hname) hne
        · exact hinputs
      rcases inputs_alike h.stdin hnames with ⟨texts, htexts, htexts'⟩ | ⟨e, e', he, he', halike⟩
      · by_cases hfits : Numeral.fitsWord a.chunkSize = true
        · have hemit := emit_alike h.targets a.presentation.output
            (document s a.presentation (convertTexts s a.chunkSize.toNat texts).html)
          simp only [convert, hvalues, ← h.values, hsame, htexts, htexts', hsettings,
            hsettings', ← h.chunkSize, hfits, ← h.presentation,
            convertTexts_html_of_agree h.lists]
          exact hemit _ _
        · simp only [convert, hvalues, ← h.values, hsame, htexts, htexts', hsettings,
            hsettings', ← h.chunkSize, eq_false_of_ne_true hfits]
          exact .of_ending rfl
      · simp only [convert, hvalues, ← h.values, hsame, he, he']
        exact halike

theorem fetch_alike (h : Matched .fetch w w' a b s list) : (fetch w a).Alike (fetch w' b) := by
  obtain ⟨notices, hsettings⟩ := h.settings
  obtain ⟨notices', hsettings'⟩ := h.settings'
  cases hvalues : badValue? w.files .fetch a with
  | some ending =>
      refine .of_ending ?_
      simp only [fetch, hvalues, ← h.values]
  | none =>
      match hoperands : a.operands with
      | [] =>
          refine .of_ending ?_
          simp only [fetch, hvalues, ← h.values, ← h.operands, hoperands]
      | _ :: extra :: more =>
          refine .of_ending ?_
          simp only [fetch, hvalues, ← h.values, ← h.operands, hoperands]
      | [url] =>
          cases hdownload : Download.fetch w.respond url [] with
          | error fault =>
              refine .of_ending ?_
              simp only [fetch, hvalues, ← h.values, ← h.operands, hoperands, hsettings, hsettings',
                ← h.respond, hdownload]
          | ok t =>
              have hemit := emit_alike h.targets a.presentation.output
                (document s (a.presentation.titled url) (Converter.convertAll s t).html)
              simp only [fetch, hvalues, ← h.values, ← h.operands, hoperands, hsettings, hsettings',
                ← h.respond, hdownload, ← h.presentation,
                Converter.convertAll_html_of_agree h.lists]
              exact hemit _ _

/-! ### Options and files -/

theorem exists_read_of_load {path : Text} {notices : List Notice}
    (h : Settings.load files path = .ok (s, notices)) : ∃ bytes, files.read path = .ok bytes := by
  rw [Settings.load] at h
  split at h
  · cases h
  · rename_i bytes hread
    exact ⟨bytes, hread⟩

/-- Saved settings are in the tree that saving leaves, which has one file more. -/
theorem exists_put_of_save {path : Text} (h : Settings.save files path s = .ok files') :
    ∃ place bytes, files.Leads path place ∧ files' = files.put place bytes ∧
      Settings.load files' path = .ok (s.joinPairs, []) := by
  cases htarget : files.target path with
  | error fault =>
      rw [Settings.save, htarget] at h
      cases h
  | ok place =>
      obtain ⟨bytes, hsave, hload⟩ := Settings.exists_saved htarget s
      obtain rfl := Except.ok.inj (hsave.symm.trans h)
      exact ⟨place, bytes, Files.leads_of_target htarget, rfl, hload⟩

/-- Inputs are the same after saving, unless the file that is saved is one of them. -/
theorem sameInputs_of_save {path : Text} {names : List Text}
    (h : Settings.save files path s = .ok files')
    (hother : ∀ name ∈ names, name ≠ stdinName → files.target name ≠ files.target path) :
    SameInputs files files' names := by
  obtain ⟨place, bytes, hleads, rfl, -⟩ := exists_put_of_save h
  intro name hname hne found
  have htarget := hother name hname hne
  rw [Files.target_eq_ok_iff.mpr hleads] at htarget
  exact (Files.read_put_of_target_ne hleads htarget bytes found).symm

/-- The path of settings that can be loaded is a good value, and so are those of other options that
bear on settings. -/
theorem goodValue_of_load {path : Text} {notices : List Notice}
    (hpath : a.value? .config = some path)
    (hload : Settings.load files (Files.plainPath path) = .ok (s, notices)) :
    ∀ flag ∈ a.flags, (!flag.bearsOnSettings) = false → GoodValue files a flag := by
  intro flag _ hbears
  by_cases hconfig : flag = .config
  · obtain ⟨bytes, hread⟩ := exists_read_of_load hload
    rw [hconfig]
    exact goodValue_of_read hpath hread
  · refine goodValue_other ?_ ?_ hconfig ?_ files a
    all_goals
      rintro rfl
      cases hbears

/--
**Options that change settings do what editing the settings file does.**  The same command without
them, on a file that was saved with the settings edited to say what they say, has the same exit
code and the same standard output, and writes the same to the same output file, if it writes one.
The two may differ in the words on standard error.
-/
theorem run_overrides {verb : Verb} {arguments arguments' : List Text} {path path' : Text}
    {notices : List Notice} (hverb : verb ≠ .css)
    (hinvokes : Invokes arguments verb a) (hinvokes' : Invokes arguments' verb b)
    (hpath : a.value? .config = some path) (hpath' : b.value? .config = some path')
    (hplain : b.overrides = {}) (hsame : a.AgreeOn (!·.bearsOnSettings) b)
    (hoperands : a.operands = b.operands)
    (hload : Settings.load w.files (Files.plainPath path) = .ok (s, notices))
    (hedited : Edited a s s')
    (hsave : Settings.save w.files (Files.plainPath path') s' = .ok files')
    (hinputs : verb = .convert → SameInputs w.files files' a.operands) :
    (run w arguments).Alike (run { w with files := files' } arguments') := by
  have hs' : s' = a.overrides.apply s := hedited.unique (edited_apply a s)
  have hstyles := hedited.styleTexts ▸ Settings.unpaired_styleTexts_of_load hload
  obtain ⟨place, bytes, hleads, hput, hload'⟩ := exists_put_of_save hsave
  rw [Settings.joinPairs_of_styleTexts hstyles] at hload'
  -- Options that bear on settings have good values in both runs, and the others are the same.
  have hfaults : firstFault? w.files a = firstFault? files' b := by
    refine firstFault?_eq_of_agreeOn hsame ?_ (goodValue_of_load hpath hload)
      (goodValue_of_load hpath' hload')
    intro flag value
    rw [hput, valueFault?_put hleads]
  have hmatched : Matched verb w { w with files := files' } a b s' s'.joinPairs.allowList := {
    stdin := rfl
    respond := rfl
    targets := fun other q => by
      rw [hput]
      exact (Files.target_put_iff hleads bytes).symm
    values := by rw [badValue?_eq, badValue?_eq, hfaults]
    operands := hoperands
    presentation := hsame.presentation rfl rfl rfl
    chunkSize := hsame.chunkSize rfl
    settings := by
      refine ⟨notices, ?_⟩
      simp only [settingsFor, hpath, hload, hs']
    settings' := by
      refine ⟨[], ?_⟩
      have hno (any : Settings) : ({} : Overrides).apply any = any := by
        simp [Overrides.apply]
      simp only [settingsFor, hpath', hload', hplain, hno]
    lists := Settings.agreeOnAddresses_joinPairs s' }
  refine alike_run hinvokes hinvokes' ?_
  cases verb with
  | convert => exact convert_alike hmatched (hinputs rfl)
  | fetch => exact fetch_alike hmatched
  | css => exact absurd rfl hverb

/-- All options at once, a scheme that is given twice, and a file that is new. -/
theorem run_overrides_new_file :
    let w : World :=
      { files := ⟨[(["c.json".toText], .file [0x7b, 0x7d]),
          (["in".toText], .file [0x1b, 0x5b, 0x33, 0x31, 0x6d, 0x3c])]⟩
        stdin := [0x62]
        respond := fun _ => .failure .connect [] }
    let arguments := ["convert".toText, "--allow-scheme".toText, "tel".toText, "--classes".toText,
      "--allow-scheme=ftp".toText, "in".toText, "--config".toText, "c.json".toText,
      "--no-escape".toText, "--allow-scheme".toText, "tel".toText, "-".toText]
    let arguments' :=
      ["convert".toText, "--config".toText, "d.json".toText, "in".toText, "-".toText]
    let s' : Settings :=
      { useClasses := true
        escapeHtml := false
        allowList := .ofPairs [("tel".toText, true), ("ftp".toText, true)] }
    ∃ files', Settings.save w.files (Files.plainPath "d.json".toText) s' = .ok files' ∧
      (run w arguments).Alike (run { w with files := files' } arguments') := by
  intro w arguments arguments' s'
  let a : Arguments :=
    { given := [⟨.allowScheme, some "tel".toText⟩, ⟨.classes, none⟩,
        ⟨.allowScheme, some "ftp".toText⟩, ⟨.config, some "c.json".toText⟩, ⟨.noEscape, none⟩,
        ⟨.allowScheme, some "tel".toText⟩]
      operands := ["in".toText, "-".toText] }
  let b : Arguments :=
    { given := [⟨.config, some "d.json".toText⟩], operands := ["in".toText, "-".toText] }
  have hinvokes : Invokes arguments .convert a :=
    ⟨⟨{ operands := arguments }, _, eq_ok_of_toOption (by decide +kernel), rfl, rfl,
      eq_ok_of_toOption (by decide +kernel)⟩, by decide⟩
  have hinvokes' : Invokes arguments' .convert b :=
    ⟨⟨{ operands := arguments' }, _, eq_ok_of_toOption (by decide +kernel), rfl, rfl,
      eq_ok_of_toOption (by decide +kernel)⟩, by decide⟩
  have hload : Settings.load w.files (Files.plainPath "c.json".toText) = .ok ({}, []) :=
    eq_ok_of_toOption (by decide +kernel)
  have hedited : Edited a {} s' := by
    have heq : s' = a.overrides.apply {} := by decide +kernel
    rw [heq]
    exact edited_apply a {}
  have htarget : w.files.target (Files.plainPath "d.json".toText) = .ok ["d.json".toText] := rfl
  have hsave : Settings.save w.files (Files.plainPath "d.json".toText) s'
      = .ok (w.files.store ["d.json".toText] s'.write) := by
    simp only [Settings.save, htarget]
  refine ⟨_, hsave, ?_⟩
  refine run_overrides (by decide) hinvokes hinvokes' (by decide) (by decide) (by decide)
    (by decide) rfl hload hedited hsave fun _ => sameInputs_of_save hsave ?_
  intro name hname hne
  simp only [a, List.mem_cons, List.not_mem_nil, or_false] at hname
  rcases hname with rfl | rfl
  · have hin : w.files.target "in".toText = .ok ["in".toText] := rfl
    rw [hin, htarget]
    exact fun h => absurd (Except.ok.inj h) (by decide)
  · exact absurd rfl hne

end TerminalMarkup.Command
