/-
What is printed and what is written to a file.

A command makes the same text whether it goes to a file or to standard output.  To the file
it goes as it is.  What is printed goes without control sequences, where there is no
terminal (`Plain.plain`), so it is the same text exactly if there are none in it.

A conversion brings no escape characters with it, so control sequences can only come from
the declarations of the settings and from the title of a page.  Escaping a title does not
help: an escape character is not one of those that are escaped.
-/
import TerminalMarkup.Proofs.Command.Fetching
import TerminalMarkup.Proofs.Command.Plain
import TerminalMarkup.Proofs.Command.Traces
import TerminalMarkup.Proofs.Converter.EscapeFree

namespace TerminalMarkup.Command

variable {w : World} {verb : Verb} {a b : Arguments} {settings : Settings} {t path : Text}

/-! ### The output file left out -/

/-- Two commands have the same operands and the same options, but that one of them may have an
output file, and the other has none. -/
structure WithoutOutput (a b : Arguments) : Prop where
  same : a.AgreeOn (· != .output) b
  operands : a.operands = b.operands
  none : b.value? .output = none

namespace WithoutOutput

theorem goodValue (h : WithoutOutput a b) : ∀ flag ∈ b.flags, (flag != .output) = false →
    GoodValue w.files b flag := by
  intro flag _ hflag
  have houtput : flag = .output := by simpa using hflag
  rw [houtput, GoodValue, h.none]
  rfl

/-- The output file may be a bad value, and makes no other difference. -/
theorem badValue?_eq_none_iff (h : WithoutOutput a b) :
    badValue? w.files verb a = Option.none ↔
      GoodValue w.files a .output ∧ badValue? w.files verb b = Option.none := by
  rw [Command.badValue?_eq_none_iff, Command.badValue?_eq_none_iff]
  have hfaults : GoodValue w.files a .output → firstFault? w.files a = firstFault? w.files b := by
    intro hgood
    refine firstFault?_eq_of_agreeOn h.same (fun _ _ => rfl) ?_ h.goodValue
    intro flag _ hflag
    have houtput : flag = .output := by simpa using hflag
    rw [houtput]
    exact hgood
  constructor
  · intro hnone
    have hgood : GoodValue w.files a .output := by
      cases hvalue : a.value? .output with
      | none =>
          rw [GoodValue, hvalue]
          rfl
      | some path =>
          rw [firstFault?, List.findSome?_eq_none_iff] at hnone
          exact hnone _ (Arguments.mem_flags_of_value? hvalue)
    exact ⟨hgood, hfaults hgood ▸ hnone⟩
  · intro hgood
    rw [hfaults hgood.1]
    exact hgood.2

theorem inputNames (h : WithoutOutput a b) : a.inputNames = b.inputNames := by
  rw [Arguments.inputNames, Arguments.inputNames, h.operands]

theorem presentation (h : WithoutOutput a b) :
    a.presentation = { b.presentation with output := a.value? .output } := by
  rw [Arguments.presentation, Arguments.presentation, h.same.has rfl, h.same.value? rfl]

theorem settingsFor (h : WithoutOutput a b) (files : Files) :
    settingsFor files (a.value? .config) a.overrides
      = settingsFor files (b.value? .config) b.overrides := by
  rw [h.same.value? rfl, h.same.overrides rfl rfl rfl]

/-- **A command makes the same text with an output file and without.** -/
theorem makes_iff (h : WithoutOutput a b) (hverb : verb ≠ .css) :
    Makes w a verb settings t ↔ GoodValue w.files a .output ∧ Makes w b verb settings t := by
  have hsize : a.chunkSize = b.chunkSize := h.same.chunkSize rfl
  constructor
  · intro hmakes
    cases hmakes with
    | convert hvalues hinputs hsettings hfits =>
        obtain ⟨hgood, hvalues'⟩ := h.badValue?_eq_none_iff.mp hvalues
        rw [h.inputNames] at hinputs
        rw [h.settingsFor] at hsettings
        rw [hsize] at hfits ⊢
        rw [h.presentation]
        exact ⟨hgood, .convert hvalues' hinputs hsettings hfits⟩
    | fetch hvalues hurl hsettings ht =>
        obtain ⟨hgood, hvalues'⟩ := h.badValue?_eq_none_iff.mp hvalues
        rw [h.operands] at hurl
        rw [h.settingsFor] at hsettings
        rw [h.presentation]
        exact ⟨hgood, .fetch hvalues' hurl hsettings ht⟩
    | css hvalues hnone hsettings => exact absurd rfl hverb
  · intro hboth
    obtain ⟨hgood, hmakes⟩ := hboth
    cases hmakes with
    | convert hvalues hinputs hsettings hfits =>
        have hvalues' := h.badValue?_eq_none_iff.mpr ⟨hgood, hvalues⟩
        rw [← h.inputNames] at hinputs
        rw [← h.settingsFor] at hsettings
        rw [← hsize] at hfits ⊢
        have hmade := Makes.convert hvalues' hinputs hsettings hfits
        rw [h.presentation] at hmade
        exact hmade
    | fetch hvalues hurl hsettings ht =>
        have hvalues' := h.badValue?_eq_none_iff.mpr ⟨hgood, hvalues⟩
        rw [← h.operands] at hurl
        rw [← h.settingsFor] at hsettings
        have hmade := Makes.fetch hvalues' hurl hsettings ht
        rw [h.presentation] at hmade
        exact hmade
    | css hvalues hnone hsettings => exact absurd rfl hverb

end WithoutOutput

/-! ### Control sequences in what is made -/

/-- The title of the page that a command makes, if it makes one: that of a log is its address,
unless another is given. -/
def Arguments.pageTitle (verb : Verb) (a : Arguments) : Text :=
  match verb with
  | .fetch => (a.presentation.titled (a.operands.headD [])).title
  | _ => a.presentation.title

theorem esc_not_mem_document (hsettings : settings.EscapeFree) {p : Presentation} {body : Text}
    (htitle : p.full = true → esc ∉ p.title) (hbody : esc ∉ body) :
    esc ∉ document settings p body := by
  unfold document
  split
  · rename_i hfull
    refine Html.Page.esc_not_mem_render (htitle hfull) ?_ hbody
    dsimp only
    split
    · exact Html.esc_not_mem_stylesheet hsettings
    · exact List.not_mem_nil
  · exact hbody

theorem esc_not_mem_convertTexts (hsettings : settings.EscapeFree) (size : Nat)
    (texts : List Text) : esc ∉ (convertTexts settings size texts).html := by
  refine Converter.esc_not_mem_run hsettings Style.wears_plain fun step hstep => ?_
  rcases List.mem_append.mp hstep with hstep | hstep
  · obtain ⟨chunk, -, rfl⟩ := List.mem_map.mp hstep
    trivial
  · rw [List.mem_singleton.mp hstep]
    trivial

theorem esc_not_mem_convertAll (hsettings : settings.EscapeFree) (t : Text) :
    esc ∉ (Converter.convertAll settings t).html := by
  have hlength := convertTexts_single settings (Nat.le_refl t.length)
  rw [← hlength]
  exact esc_not_mem_convertTexts hsettings t.length [t]

/-- What a command makes has no escape characters but those of the settings and of a title. -/
theorem Makes.esc_not_mem (h : Makes w a verb settings t) (hsettings : settings.EscapeFree)
    (htitle : a.has .full = true → esc ∉ a.pageTitle verb) : esc ∉ t := by
  cases h with
  | convert hvalues hinputs hloaded hfits =>
      exact esc_not_mem_document hsettings htitle (esc_not_mem_convertTexts hsettings _ _)
  | fetch hvalues hurl hloaded ht =>
      rw [Arguments.pageTitle, hurl] at htitle
      exact esc_not_mem_document hsettings htitle (esc_not_mem_convertAll hsettings _)
  | css hvalues hnone hloaded => exact Html.esc_not_mem_stylesheet hsettings

/-- The title stands in a page, escaped. -/
theorem title_within_render (p : Html.Page) : Html.escape p.title <:+: p.render := by
  refine ⟨Html.Page.opening, "</title>\n".toText ++ (Html.Page.styleElement p.css ++
    ("</head>\n<body>\n<pre>".toText ++ (p.body ++ "</pre>\n</body>\n</html>\n".toText))), ?_⟩
  simp only [Html.Page.render, List.append_assoc]

theorem title_within_document (settings : Settings) {p : Presentation} (h : p.full = true)
    (body : Text) : Html.escape p.title <:+: document settings p body := by
  rw [document, if_pos h]
  exact title_within_render ⟨p.title, _, body⟩

theorem Makes.title_within (h : Makes w a verb settings t) (hverb : verb ≠ .css)
    (hfull : a.has .full = true) : Html.escape (a.pageTitle verb) <:+: t := by
  cases h with
  | convert hvalues hinputs hloaded hfits => exact title_within_document settings hfull _
  | fetch hvalues hurl hloaded ht =>
      rw [Arguments.pageTitle, hurl]
      exact title_within_document settings hfull _
  | css hvalues hnone hloaded => exact absurd rfl hverb

/-! ### Written and printed -/

/-- A text that was printed has bytes. -/
theorem bytes_of_emit {o : Outcome} (hcode : o.exitCode = 0)
    (hending : o.ending = emit w.files none t) :
    (Utf8.encode? t).isSome = true := by
  rw [← Plain.isSome_encode?_plain]
  by_contra hnone
  rw [emit_unprinted _ (eq_false_of_ne_true hnone)] at hending
  rw [Outcome.exitCode, hending] at hcode
  cases hcode

/--
**What is written to an output file is what is printed without one, but for control sequences.**

A command that ends well with an output file ends well without, and the other way round, if a file
can be written at its path.  With it the text is in the file and nothing is printed; without it the
same text is printed, except that control sequences are left out.  So the two are the same exactly
if there is none in the text.  They are the same if neither the declarations of the settings nor the
title of a page has an escape character, and they are not if there is a page and its title,
escaped, has a control sequence.
-/
theorem run_written_or_printed {arguments arguments' : List Text} (hverb : verb ≠ .css)
    (hwith : Invokes arguments verb a) (hwithout : Invokes arguments' verb b)
    (hsame : WithoutOutput a b) (houtput : a.value? .output = some path) :
    let written := run w arguments
    let printed := run w arguments'
    (written.exitCode = 0 ↔ printed.exitCode = 0 ∧ GoodValue w.files a .output ∧
      ∃ place, w.files.target (Files.plainPath path) = .ok place) ∧
    (written.exitCode = 0 → ∃ settings t, Makes w b verb settings t ∧
      written.stdout = [] ∧ Wrote w.files (Files.plainPath path) t (written.files w.files) ∧
      printed.stdout = Plain.plain t ∧ printed.files w.files = w.files ∧
      (printed.stdout = t ↔ ¬Plain.HasSequence t) ∧
      (settings.EscapeFree → (b.has .full = true → esc ∉ b.pageTitle verb) → printed.stdout = t) ∧
      (b.has .full = true → Plain.HasSequence (Html.escape (b.pageTitle verb)) →
        printed.stdout ≠ t)) := by
  intro written printed
  have hended : written.exitCode = 0 → ∃ settings t, Makes w a verb settings t ∧
      written.ending = emit w.files (some path) t := by
    intro hcode
    have hmade := exists_makes hwith hcode
    rwa [houtput] at hmade
  have hprinted : ∀ {settings t} {o : Outcome}, Makes w b verb settings t → o.exitCode = 0 →
      o.ending = emit w.files (some path) t → printed.ending = .done t none := by
    intro settings t o hmakes hcode hending
    obtain ⟨bytes, hbytes, -⟩ := (wrote_of_emit hcode hending).2.read
    have hplain : (Utf8.encode? (Plain.plain t)).isSome = true := by
      rw [Plain.isSome_encode?_plain, hbytes]
      rfl
    have hmade := ending_of_makes hwithout hmakes
    rw [hsame.none] at hmade
    exact hmade.trans (emit_printed _ hplain)
  refine ⟨⟨?_, ?_⟩, ?_⟩
  · intro hcode
    obtain ⟨settings, t, hmakes, hending⟩ := hended hcode
    obtain ⟨hgood, hmakes'⟩ := (hsame.makes_iff hverb).mp hmakes
    obtain ⟨-, -, place, htarget, -⟩ := wrote_of_emit hcode hending
    refine ⟨?_, hgood, place, htarget⟩
    rw [Outcome.exitCode, hprinted hmakes' hcode hending]
  · intro hready
    obtain ⟨hcode, hgood, place, htarget⟩ := hready
    obtain ⟨settings, t, hmakes, hprinted⟩ := exists_makes hwithout hcode
    rw [hsame.none] at hprinted
    obtain ⟨bytes, hbytes⟩ := Option.isSome_iff_exists.mp (bytes_of_emit hcode hprinted)
    have hmakes' := (hsame.makes_iff hverb).mpr ⟨hgood, hmakes⟩
    rw [Outcome.exitCode, ending_of_makes hwith hmakes', houtput, emit_written htarget hbytes]
  · intro hcode
    obtain ⟨settings, t, hmakes, hending⟩ := hended hcode
    obtain ⟨-, hmakes'⟩ := (hsame.makes_iff hverb).mp hmakes
    obtain ⟨hstdout, hwrote⟩ := wrote_of_emit hcode hending
    have hplain : printed.stdout = Plain.plain t := by
      rw [Outcome.stdout, hprinted hmakes' hcode hending]
    have hfiles : printed.files w.files = w.files := by
      rw [Outcome.files, hprinted hmakes' hcode hending]
    have hiff : printed.stdout = t ↔ ¬Plain.HasSequence t := by
      rw [hplain]
      exact Plain.plain_eq_self_iff t
    refine ⟨settings, t, hmakes', hstdout, hwrote, hplain, hfiles, hiff, ?_, ?_⟩
    · intro hfree htitle
      exact hiff.mpr (Plain.not_hasSequence_of_not_mem (hmakes'.esc_not_mem hfree htitle))
    · intro hfull hsequence heq
      exact hiff.mp heq (hsequence.mono (hmakes'.title_within hverb hfull))

/-- A page whose title resets the style of a terminal. -/
theorem run_written_or_printed_title :
    let w : World := { stdin := [0x79], respond := fun _ => .failure .connect [] }
    let title := "\x1b[0mx".toText
    let arguments :=
      ["convert".toText, "--full".toText, "--title".toText, title, "-o".toText, ['p']]
    let arguments' := ["convert".toText, "--full".toText, "--title".toText, title]
    (run w arguments).exitCode = 0 ∧ (run w arguments').exitCode = 0 ∧
      ∃ t, Wrote w.files ['p'] t ((run w arguments).files w.files) ∧
        (run w arguments').stdout = Plain.plain t ∧ (run w arguments').stdout ≠ t := by
  intro w title arguments arguments'
  let b : Arguments := { given := [⟨.full, none⟩, ⟨.title, some title⟩] }
  let a : Arguments := { b with given := b.given ++ [⟨.output, some ['p']⟩] }
  have hwith : Invokes arguments .convert a :=
    ⟨⟨{ operands := arguments }, _, eq_ok_of_toOption (by decide +kernel), rfl, rfl,
      eq_ok_of_toOption (by decide +kernel)⟩, by decide⟩
  have hwithout : Invokes arguments' .convert b :=
    ⟨⟨{ operands := arguments' }, _, eq_ok_of_toOption (by decide +kernel), rfl, rfl,
      eq_ok_of_toOption (by decide +kernel)⟩, by decide⟩
  have hsame : WithoutOutput a b := ⟨by decide, rfl, rfl⟩
  have hcode : (run w arguments).exitCode = 0 := by decide +kernel
  have hsequence : Plain.HasSequence (Html.escape (b.pageTitle .convert)) :=
    ⟨[], "\x1b[0m".toText, ['x'], by decide, ['0'], [], 'm', rfl, List.forall_mem_singleton.mpr rfl,
      List.forall_mem_nil _, rfl⟩
  obtain ⟨hcodes, htexts⟩ := run_written_or_printed (by decide) hwith hwithout hsame rfl
  obtain ⟨settings, t, -, -, hwrote, hplain, -, -, -, hdiffer⟩ := htexts hcode
  exact ⟨hcode, (hcodes.mp hcode).1, t, hwrote, hplain, hdiffer (by decide) hsequence⟩

end TerminalMarkup.Command
