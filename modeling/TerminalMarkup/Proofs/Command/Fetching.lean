/-
A log is converted alike from an address and from standard input.

One command gets its text from a reply and converts it in one call, the other reads it in
chunks.  If a chunk may be as long as the text, there is one chunk, or none if the text is
empty, and the two conversions are the same (`convertTexts_single`).  What is left of the
difference is that reading makes line endings one, and that the size of a chunk has to fit
a signed word.

Everything else comes from options that the two commands have in common, and neither has
options beyond these and one of its own (`goodValue_of_not_shared`).
-/
import TerminalMarkup.Proofs.Command.Arguments
import TerminalMarkup.Proofs.Command.Invocation
import TerminalMarkup.Proofs.Converter.Packets

namespace TerminalMarkup

/-! ### Texts in one piece -/

theorem Text.pieces_of_length_le {size : Nat} {t : Text} (h : t.length ≤ size) :
    pieces size t = if t = [] then [] else [t] := by
  cases t with
  | nil => rw [pieces, if_pos rfl]
  | cons c rest =>
      have hrest : rest.length ≤ size - 1 := Nat.le_sub_one_of_lt h
      rw [pieces, List.take_of_length_le hrest, List.drop_of_length_le hrest, pieces,
        if_neg (List.cons_ne_nil c rest)]

theorem Newline.length_unifyFrom_le (afterReturn : Bool) (done t : Text) :
    (unifyFrom afterReturn done t).length ≤ done.length + t.length := by
  induction t generalizing afterReturn done with
  | nil => simp [unifyFrom]
  | cons c rest ih =>
      rw [unifyFrom, List.length_cons]
      split
      · have hih := ih true ('\n' :: done)
        rw [List.length_cons] at hih
        omega
      · split
        · have hih := ih false done
          omega
        · have hih := ih false (c :: done)
          rw [List.length_cons] at hih
          omega

/-- One line ending takes no more room than many. -/
theorem Newline.length_unify_le (t : Text) : (unify t).length ≤ t.length := by
  have h := length_unifyFrom_le false [] t
  rwa [List.length_nil, Nat.zero_add] at h

namespace Command

/-- **A text that fits into one chunk is converted as it is in one call.** -/
theorem convertTexts_single (settings : Settings) {size : Nat} {t : Text} (h : t.length ≤ size) :
    convertTexts settings size [t] = Converter.convertAll settings t := by
  have hchunks : [t].flatMap (Text.pieces size) = if t = [] then [] else [t] := by
    rw [List.flatMap_singleton, Text.pieces_of_length_le h]
  rw [convertTexts, hchunks]
  by_cases hempty : t = []
  · -- The empty text is no chunk, and a call with it does nothing.
    have hconvert : Stream.convert {} [] = ([], {}) :=
      Stream.advance_of_stuck (by simp [Token.Stuck]) .plain
    rw [if_pos hempty, hempty]
    simp [Converter.convertAll, Converter.run, Converter.step, hconvert, Output.ofPieces]
  · rw [if_neg hempty]
    rfl

/-! ### Options in common -/

variable {w : World} {f c : Arguments}

/-- Whether conversions have an option in common. -/
def Flag.isShared (flag : Flag) : Bool := Flag.shared.contains flag

/-- A command has the options in common, one of its own and help, and is given no other. -/
theorem goodValue_of_not_shared {arguments : List Text} {verb : Verb} {a : Arguments} {own : Flag}
    (hinvokes : Invokes arguments verb a) (hverb : Flag.ofVerb verb = own :: Flag.shared ++ [.help])
    (hown : GoodValue w.files a own) :
    ∀ flag ∈ a.flags, flag.isShared = false → GoodValue w.files a flag := by
  intro flag hflag hshared
  obtain ⟨⟨top, rest, -, -, -, hread⟩, -⟩ := hinvokes
  have hmem : flag ∈ own :: Flag.shared ++ [.help] :=
    hverb ▸ Arguments.mem_accepted_of_read hread flag hflag
  simp only [List.cons_append, List.mem_cons, List.mem_append, List.not_mem_nil, or_false] at hmem
  rcases hmem with rfl | hin | rfl
  · exact hown
  · rw [Flag.isShared, List.contains_iff_mem.mpr hin] at hshared
    cases hshared
  · exact goodValue_other (by decide) (by decide) (by decide) (by decide) w.files a

/-- Arguments for the two commands that have the same options in common, with good values for the
option that each has of its own. -/
structure Paired (w : World) (f c : Arguments) : Prop where
  shared : f.AgreeOn Flag.isShared c
  timeout : GoodValue w.files f .timeout
  chunkSize : GoodValue w.files c .chunkSize

namespace Paired

theorem firstFault?_eq {fetching converting : List Text} (h : Paired w f c)
    (hfetch : Invokes fetching .fetch f) (hconvert : Invokes converting .convert c) :
    firstFault? w.files f = firstFault? w.files c :=
  firstFault?_eq_of_agreeOn h.shared (fun _ _ => rfl)
    (goodValue_of_not_shared hfetch rfl h.timeout)
    (goodValue_of_not_shared hconvert rfl h.chunkSize)

theorem values_iff {fetching converting : List Text} (h : Paired w f c)
    (hfetch : Invokes fetching .fetch f) (hconvert : Invokes converting .convert c) :
    badValue? w.files .fetch f = none ↔ badValue? w.files .convert c = none := by
  rw [badValue?_eq_none_iff, badValue?_eq_none_iff, h.firstFault?_eq hfetch hconvert]

theorem settingsFor_eq (h : Paired w f c) :
    settingsFor w.files (f.value? .config) f.overrides
      = settingsFor w.files (c.value? .config) c.overrides := by
  rw [h.shared.value? rfl, h.shared.overrides rfl rfl rfl]

end Paired

/-- The same bad value ends both commands alike. -/
theorem faultEnding_alike (verb verb' : Verb) (fault : UsageFault ⊕ Crash) :
    Outcome.Alike { ending := faultEnding verb fault } { ending := faultEnding verb' fault } := by
  cases fault with
  | inl fault => exact .of_misused rfl rfl
  | inr crash => exact .of_ending rfl

/-! ### The commands -/

variable {settings : Settings} {notices : List Notice} {url t : Text}

theorem fetch_of_success (hvalues : badValue? w.files .fetch f = none) (hurl : f.operands = [url])
    (hsettings : settingsFor w.files (f.value? .config) f.overrides = .ok (settings, notices))
    (ht : Download.fetch w.respond url [] = .ok t) :
    (fetch w f).ending = emit w.files f.presentation.output
      (document settings (f.presentation.titled url) (Converter.convertAll settings t).html) := by
  simp only [fetch, hvalues, hurl, hsettings, ht]

theorem inputs_of_stdin (h : c.operands = [] ∨ c.operands = [stdinName]) :
    inputs w c.inputNames = .ok [inputText w.stdin] := by
  rcases h with hnone | hone
  · rw [Arguments.inputNames, if_pos hnone]
    rfl
  · rw [Arguments.inputNames, hone]
    rfl

theorem convert_of_stdin (hvalues : badValue? w.files .convert c = none)
    (hstdin : c.operands = [] ∨ c.operands = [stdinName])
    (hsettings : settingsFor w.files (c.value? .config) c.overrides = .ok (settings, notices))
    (hsize : ((inputText w.stdin).length : Int) ≤ c.chunkSize) :
    (convert w c).ending =
      if Numeral.fitsWord c.chunkSize then
        emit w.files c.presentation.output (document settings c.presentation
          (Converter.convertAll settings (inputText w.stdin)).html)
      else .broken .chunkTooWide := by
  have hinputs : inputs w _ = _ := inputs_of_stdin hstdin
  have hfew : (inputText w.stdin).length ≤ c.chunkSize.toNat := by omega
  have hone := convertTexts_single settings hfew
  cases hfits : Numeral.fitsWord c.chunkSize with
  | true => simp only [convert, hvalues, hinputs, hsettings, hfits, hone]; rfl
  | false => simp only [convert, hvalues, hinputs, hsettings, hfits]; rfl

theorem download_of_success {status : Nat} {bytes : List UInt8}
    (hreply : w.respond (Download.request url []) = .response status bytes)
    (hsuccess : Download.isSuccess status = true) :
    Download.fetch w.respond url [] = .ok (Utf8.decodeLossy bytes) := by
  have hfound : status ≠ 404 := by
    rintro rfl
    cases hsuccess
  rw [Download.fetch, hreply, Download.textOf, if_neg hfound, if_pos hsuccess]

/-- The address makes no difference to a page that has a title, or to no page. -/
theorem document_titled (settings : Settings) {p : Presentation}
    (h : p.full = true → p.title ≠ []) (url body : Text) :
    document settings (p.titled url) body = document settings p body := by
  cases hfull : p.full with
  | true =>
      have htitled : p.titled url = p := by
        rw [Presentation.titled, if_neg (h hfull)]
      rw [htitled]
  | false => simp [document, Presentation.titled, hfull]

/-- What the two commands end with once their settings are there. -/
theorem Paired.endings {fetching converting : List Text} {bytes : List UInt8} (h : Paired w f c)
    (hfetch : Invokes fetching .fetch f) (hconvert : Invokes converting .convert c)
    (hurl : f.operands = [url]) (hstdin : c.operands = [] ∨ c.operands = [stdinName])
    (hdownload : Download.fetch w.respond url [] = .ok t)
    (hsize : ((inputText bytes).length : Int) ≤ c.chunkSize)
    (hvalues : badValue? w.files .fetch f = none)
    (hsettings : settingsFor w.files (f.value? .config) f.overrides = .ok (settings, notices)) :
    (run w fetching).ending = emit w.files f.presentation.output
      (document settings (f.presentation.titled url) (Converter.convertAll settings t).html) ∧
    (run { w with stdin := bytes } converting).ending =
      if Numeral.fitsWord c.chunkSize then
        emit w.files f.presentation.output
          (document settings f.presentation (Converter.convertAll settings (inputText bytes)).html)
      else .broken .chunkTooWide := by
  have hvalues' := (h.values_iff hfetch hconvert).mp hvalues
  have hpresentation : f.presentation = c.presentation := h.shared.presentation rfl rfl rfl
  refine ⟨(ending_run hfetch w).trans (fetch_of_success hvalues hurl hsettings hdownload), ?_⟩
  rw [hpresentation, ending_run hconvert]
  exact convert_of_stdin hvalues' hstdin (h.settingsFor_eq ▸ hsettings) hsize

/-- What the two commands end with otherwise: a bad value, or settings that cannot be loaded. -/
theorem Paired.alike_of_fault {fetching converting : List Text} {bytes : List UInt8}
    (h : Paired w f c) (hfetch : Invokes fetching .fetch f)
    (hconvert : Invokes converting .convert c) (hurl : f.operands = [url])
    (hstdin : c.operands = [] ∨ c.operands = [stdinName])
    (hfault : ∀ settings notices, badValue? w.files .fetch f = none →
      settingsFor w.files (f.value? .config) f.overrides ≠ .ok (settings, notices)) :
    (run w fetching).Alike (run { w with stdin := bytes } converting) := by
  have hsame := h.firstFault?_eq hfetch hconvert
  have hinputs : inputs { w with stdin := bytes } _ = _ := inputs_of_stdin hstdin
  refine alike_run hfetch hconvert ?_
  cases hfirst : firstFault? w.files f with
  | some fault =>
      have hbad : badValue? w.files .fetch f = some (faultEnding .fetch fault) := by
        rw [badValue?_eq, hfirst]
        rfl
      have hbad' : badValue? w.files .convert c = some (faultEnding .convert fault) := by
        rw [badValue?_eq, ← hsame, hfirst]
        rfl
      simp only [verbOutcome, fetch, convert, hbad, hbad']
      exact faultEnding_alike .fetch .convert fault
  | none =>
      have hvalues : badValue? w.files .fetch f = none := badValue?_eq_none_iff.mpr hfirst
      have hvalues' := (h.values_iff hfetch hconvert).mp hvalues
      cases hsettings : settingsFor w.files (f.value? .config) f.overrides with
      | ok loaded => exact absurd hsettings (hfault loaded.1 loaded.2 hvalues)
      | error e =>
          have hsettings' := h.settingsFor_eq ▸ hsettings
          simp only [verbOutcome, fetch, convert, hvalues, hvalues', hurl, hinputs, hsettings,
            hsettings']
          exact .of_ending rfl

/--
**A log is converted alike from an address and from standard input.**  One command gets bytes in a
successful reply, the other on standard input, and a chunk may be as long as the text.  Then the
first ends with the conversion of the text, and the second with that of the text with one line
ending for all, unless the size of a chunk is too wide for a signed word.  So without carriage
returns they come to the same, whatever the options are, if a page has the same title in both.
-/
theorem run_fetch_convert {fetching converting : List Text} {status : Nat} {bytes : List UInt8}
    (hfetch : Invokes fetching .fetch f) (hconvert : Invokes converting .convert c)
    (hpaired : Paired w f c) (hurl : f.operands = [url])
    (hstdin : c.operands = [] ∨ c.operands = [stdinName])
    (hreply : w.respond (Download.request url []) = .response status bytes)
    (hsuccess : Download.isSuccess status = true)
    (hsize : ((inputText bytes).length : Int) ≤ c.chunkSize) :
    let t := Utf8.decodeLossy bytes
    let fetched := run w fetching
    let converted := run { w with stdin := bytes } converting
    (∀ settings notices, badValue? w.files .fetch f = none →
      settingsFor w.files (f.value? .config) f.overrides = .ok (settings, notices) →
      fetched.ending = emit w.files f.presentation.output
        (document settings (f.presentation.titled url) (Converter.convertAll settings t).html) ∧
      converted.ending =
        if Numeral.fitsWord c.chunkSize then
          emit w.files f.presentation.output
            (document settings f.presentation
              (Converter.convertAll settings (Newline.unify t)).html)
        else .broken .chunkTooWide) ∧
    (('\r' : CodePoint) ∉ t → Numeral.fitsWord c.chunkSize = true →
      (f.has .full = true → f.presentation.title ≠ []) → fetched.Alike converted) := by
  intro t fetched converted
  have hdownload : Download.fetch w.respond url [] = .ok t := download_of_success hreply hsuccess
  refine ⟨fun settings notices hvalues hsettings => ?_, fun hreturn hfits htitle => ?_⟩
  · exact hpaired.endings hfetch hconvert hurl hstdin hdownload hsize hvalues hsettings
  by_cases hready : ∃ settings notices, badValue? w.files .fetch f = none ∧
      settingsFor w.files (f.value? .config) f.overrides = .ok (settings, notices)
  · obtain ⟨settings, notices, hvalues, hsettings⟩ := hready
    obtain ⟨hfetched, hconverted⟩ :=
      hpaired.endings hfetch hconvert hurl hstdin hdownload hsize hvalues hsettings
    rw [document_titled settings htitle] at hfetched
    rw [if_pos hfits, inputText, Newline.unify_of_not_mem hreturn] at hconverted
    exact .of_ending (hfetched.trans hconverted.symm)
  · exact hpaired.alike_of_fault hfetch hconvert hurl hstdin
      fun settings notices hvalues hsettings => hready ⟨settings, notices, hvalues, hsettings⟩

/-- A page of a log that has a byte of no character and breaks off in a sequence. -/
theorem run_fetch_convert_damaged :
    let bytes : List UInt8 := [0x1b, 0x5b, 0x31, 0x6d, 0xff, 0x3c, 0x1b, 0x5b]
    let w : World := { respond := fun _ => .response 200 bytes }
    let fetching := ["fetch".toText, "--full".toText, "--title".toText, ['T'], ['u']]
    let converting := ["convert".toText, "--full".toText, "--title=T".toText]
    ('\r' : CodePoint) ∉ Utf8.decodeLossy bytes ∧
      (run w fetching).Alike (run { w with stdin := bytes } converting) := by
  intro bytes w fetching converting
  let options : List Given := [⟨.full, none⟩, ⟨.title, some ['T']⟩]
  let f : Arguments := { given := options, operands := [['u']] }
  let c : Arguments := { given := options }
  have hfetch : Invokes fetching .fetch f :=
    ⟨⟨{ operands := fetching }, _, eq_ok_of_toOption (by decide +kernel), rfl, rfl,
      eq_ok_of_toOption (by decide +kernel)⟩, by decide⟩
  have hconvert : Invokes converting .convert c :=
    ⟨⟨{ operands := converting }, _, eq_ok_of_toOption (by decide +kernel), rfl, rfl,
      eq_ok_of_toOption (by decide +kernel)⟩, by decide⟩
  have hpaired : Paired w f c := ⟨rfl, rfl, rfl⟩
  have hsize : ((inputText bytes).length : Int) ≤ c.chunkSize := by
    have hunify := Newline.length_unify_le (Utf8.decodeLossy bytes)
    have hlength : (Utf8.decodeLossy bytes).length ≤ 4096 := by decide +kernel
    have hdefault : c.chunkSize = 4096 := rfl
    rw [inputText, hdefault]
    omega
  have hreturn : ('\r' : CodePoint) ∉ Utf8.decodeLossy bytes := by decide +kernel
  have hrun := run_fetch_convert hfetch hconvert hpaired rfl (Or.inl rfl) rfl rfl hsize
  exact ⟨hreturn, hrun.2 hreturn (by decide +kernel) fun _ => by decide⟩

end Command

end TerminalMarkup
