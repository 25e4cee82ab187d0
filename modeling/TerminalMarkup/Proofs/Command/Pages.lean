/-
Pages can be taken apart again.

Whoever reads a page can tell its title and its body from the rest, and nobody who chooses
a title can make it look like another page.  This is so for all pages, and so for all that
the commands make (`Makes.exists_page`), where a title may come from far away: the page of
a log that is fetched is called by the address of the log.
-/
import TerminalMarkup.Proofs.Command.Printing
import TerminalMarkup.Proofs.Html.Page

namespace TerminalMarkup.Command

open Html Html.Page

variable {w : World} {verb : Verb} {a : Arguments} {settings : Settings} {t : Text}

theorem exists_page_of_full (settings : Settings) {p : Presentation} (h : p.full = true)
    (body : Text) : ∃ css, document settings p body = render ⟨p.title, css, body⟩ := by
  rw [document, if_pos h]
  exact ⟨_, rfl⟩

/-- What a command makes is a page, if one is asked for. -/
theorem Makes.exists_page (h : Makes w a verb settings t) (hverb : verb ≠ .css)
    (hfull : a.has .full = true) : ∃ css body, t = render ⟨a.pageTitle verb, css, body⟩ := by
  cases h with
  | convert hvalues hinputs hsettings hfits =>
      have hpage : a.presentation.full = true := hfull
      obtain ⟨css, hdocument⟩ := exists_page_of_full settings hpage
        (convertTexts settings a.chunkSize.toNat _).html
      exact ⟨css, _, hdocument⟩
  | @fetch _ _ url log hvalues hurl hsettings hlog =>
      have hpage : (a.presentation.titled url).full = true := hfull
      obtain ⟨css, hdocument⟩ := exists_page_of_full settings hpage
        (Converter.convertAll settings log).html
      rw [Arguments.pageTitle, hurl]
      exact ⟨css, _, hdocument⟩
  | css hvalues hnone hsettings => exact absurd rfl hverb

/-- The page of a log that is given no title is called by its address. -/
theorem Makes.pageTitle_fetch (h : Makes w a .fetch settings t)
    (htitle : a.presentation.title = []) : a.operands = [a.pageTitle .fetch] := by
  cases h with
  | fetch hvalues hurl hsettings hlog =>
      rw [Arguments.pageTitle, Presentation.titled, hurl, if_pos htitle]
      rfl

/--
**A page determines its title and its body.**

With the same style sheet, two pages are the same only if their titles and their bodies are.  All
pages with one style sheet are the same but for a title, which is escaped, and a body, which is as
it was given.  The title is what is between the first tags around a title: it has no tags and no
parts of tags in it, and taken back from the references it is the title that was given.  The body
stands between the tags around it, of which the closing one is the last of its kind; and the opening
one is the first, if no tag is in the style sheet.

What the commands make is such a page, if one is asked for, and the page of a log is called by its
address, if no title is given.
-/
theorem page_determines_parts :
    (∀ css title title' body body' : Text,
      render ⟨title, css, body⟩ = render ⟨title', css, body'⟩ ↔ title = title' ∧ body = body') ∧
    (∀ css : Text, ∃ before between after : Text, ∀ title body : Text, ∃ shown : Text,
      let page := render ⟨title, css, body⟩
      let head := before ++ "<title>".toText ++ shown ++ "</title>".toText ++ between
      page = head ++ "<pre>".toText ++ body ++ "</pre>".toText ++ after ∧
      (∀ inner, Text.Between "<title>".toText "</title>".toText inner page ↔ inner = shown) ∧
      ('<' : CodePoint) ∉ shown ∧ ('>' : CodePoint) ∉ shown ∧ unescape shown = title ∧
      Text.LastAt "</pre>".toText after page ∧
      (('<' : CodePoint) ∉ css → Text.FirstAt "<pre>".toText head page)) ∧
    ∀ w verb a settings t, Makes w a verb settings t → verb ≠ .css → a.has .full = true →
      (∃ css body, t = render ⟨a.pageTitle verb, css, body⟩) ∧
      (verb = .fetch → a.presentation.title = [] → a.operands = [a.pageTitle verb]) := by
  refine ⟨?_, ?_, ?_⟩
  · intro css title title' body body'
    refine ⟨eq_of_render_eq, ?_⟩
    rintro ⟨rfl, rfl⟩
    rfl
  · intro css
    refine ⟨front, middle css, back, fun title body => ⟨escape title, ?_⟩⟩
    intro page head
    refine ⟨render_eq title css body, fun inner => between_title_iff title css body, ?_, ?_,
      unescape_escape title, lastAt_preEnd title css body, ?_⟩
    · exact lt_not_mem_escape title
    · exact gt_not_mem_escape title
    · exact fun hcss => firstAt_preStart title body hcss
  · intro w verb a settings t hmakes hverb hfull
    refine ⟨hmakes.exists_page hverb hfull, ?_⟩
    rintro rfl htitle
    exact hmakes.pageTitle_fetch htitle

/-- The page of a log whose address is full of tags. -/
theorem page_determines_parts_address :
    let w : World := { respond := fun _ => .response 200 [0x79] }
    let url := "h</title><pre>".toText
    let arguments := ["fetch".toText, "--full".toText, url]
    (run w arguments).exitCode = 0 ∧
      ∃ t shown, (run w arguments).ending = .done t none ∧ unescape shown = url ∧
        ∀ inner, Text.Between "<title>".toText "</title>".toText inner t ↔ inner = shown := by
  intro w url arguments
  let a : Arguments := { given := [⟨.full, none⟩], operands := [url] }
  have hinvokes : Invokes arguments .fetch a :=
    ⟨⟨{ operands := arguments }, _, eq_ok_of_toOption (by decide +kernel), rfl, rfl,
      eq_ok_of_toOption (by decide +kernel)⟩, by decide⟩
  have hcode : (run w arguments).exitCode = 0 := by decide +kernel
  obtain ⟨settings, t, hmakes, hending⟩ := exists_makes hinvokes hcode
  obtain ⟨-, hpages, hmade⟩ := page_determines_parts
  obtain ⟨⟨css, body, rfl⟩, hurl⟩ := hmade w .fetch a settings t hmakes (by decide) (by decide)
  obtain ⟨before, between, after, hparts⟩ := hpages css
  obtain ⟨shown, -, hbetween, -, -, hread, -⟩ := hparts (a.pageTitle .fetch) body
  have htitle : [url] = [a.pageTitle .fetch] := hurl rfl (by decide)
  rw [← List.singleton_inj.mp htitle] at hread
  exact ⟨hcode, _, shown, printed_of_emit hcode hending, hread, hbetween⟩

end TerminalMarkup.Command
