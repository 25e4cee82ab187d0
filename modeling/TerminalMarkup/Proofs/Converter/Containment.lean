/-
The input cannot write HTML.

While escaping is on, the HTML of a call is a row of blocks, one for each packet that
is shown, and the characters of the input are found in them only where they stand for
themselves.  `Contained` is this statement for one call.

Two things go into it.  Every character that is shown has been read as part of a text
or of a hyperlink, and the reader lets no escape character into either
(`isClean_of_read`).  And everything that is shown goes through `Html.written`, which
is `Html.escape` as long as the settings say so.  The settings may change between any
two calls; what counts is what they say when the call is made.
-/
import TerminalMarkup.Proofs.Converter.Packets
import TerminalMarkup.Proofs.Html.Escaping
import TerminalMarkup.Proofs.Html.Rendering

namespace TerminalMarkup

open Html

/-! ### What tokens are made of -/

/-- What a token shows is not nothing, if it is text, and has no escape characters. -/
def Token.IsClean : Token → Prop
  | .text chars => chars ≠ [] ∧ ∀ c ∈ chars, c ≠ esc
  | .hyperlink url label => (∀ c ∈ url, c ≠ esc) ∧ ∀ c ∈ label, c ≠ esc
  | _ => True

theorem ne_esc_of_isGraphic {c : CodePoint} (h : ControlSequence.isGraphic c = true) : c ≠ esc := by
  rintro rfl
  exact absurd h (by decide)

/-- Whatever the buffer holds, a token that is read from it is clean. -/
theorem Token.isClean_of_read {buffer rest : Text} {t : Token}
    (h : read buffer = .token t rest) : t.IsClean := by
  obtain ⟨word, hspells, -⟩ := spells_of_read h
  cases t with
  | text chars => exact hspells.of_text.2
  | hyperlink url label =>
      obtain ⟨l, hl, rfl, rfl, -⟩ := hspells.of_hyperlink
      obtain ⟨-, hurl, -, -, hlabel, -⟩ := hl
      refine ⟨?_, ?_⟩
      · intro c hc
        exact ne_esc_of_isGraphic (Hyperlink.isGraphic_of_isUrl (hurl c hc))
      · intro c hc
        exact ne_esc_of_isGraphic (hlabel c hc)
  | strayEscape => trivial
  | rendition params => trivial
  | control params => trivial

theorem Converter.packets_clean (c : Converter) (s : Step) :
    ∀ p ∈ c.packets s, p.token.IsClean :=
  c.forall_packets Token.isClean_of_read s

/-! ### One call -/

/-- Whether there is HTML for a packet: for every text, and for a hyperlink that is allowed. -/
def Packet.isShown (settings : Settings) (p : Packet) : Bool :=
  match p.token with
  | .text _ => true
  | .hyperlink url _ => isAllowed settings url
  | _ => false

/-- The blocks are those of the packets, in order. -/
inductive Contained (settings : Settings) : List Packet → List Block → Prop
  | nil : Contained settings [] []
  | silent {p : Packet} {ps : List Packet} {blocks : List Block}
      (hp : p.isShown settings = false) (h : Contained settings ps blocks) :
      Contained settings (p :: ps) blocks
  | bare {start : Nat} {chars shown : Text} {ps : List Packet} {blocks : List Block}
      (hshown : StandsFor shown chars) (h : Contained settings ps blocks) :
      Contained settings (⟨start, .plain, .text chars⟩ :: ps) (.bare shown :: blocks)
  | span {start : Nat} {style : Style} {chars shown : Text} {ps : List Packet}
      {blocks : List Block} (hstyle : style ≠ .plain) (hne : attributeList settings style ≠ [])
      (hshown : StandsFor shown chars) (h : Contained settings ps blocks) :
      Contained settings (⟨start, style, .text chars⟩ :: ps)
        (.span (attributeList settings style) shown :: blocks)
  | anchor {start : Nat} {style : Style} {url label address shown : Text} {ps : List Packet}
      {blocks : List Block} (hallowed : isAllowed settings url = true)
      (haddress : StandsFor address url) (hshown : StandsFor shown label)
      (h : Contained settings ps blocks) :
      Contained settings (⟨start, style, .hyperlink url label⟩ :: ps)
        (.anchor address shown :: blocks)

/-- A packet that is not shown has no HTML. -/
theorem Packet.html_of_not_shown {settings : Settings} {p : Packet}
    (h : p.isShown settings = false) : p.html settings = [] := by
  obtain ⟨start, style, t⟩ := p
  cases t with
  | text chars => exact absurd h (by simp [Packet.isShown])
  | hyperlink url label =>
      have hnot : ¬isAllowed settings url = true := by simpa [Packet.isShown] using h
      exact if_neg hnot
  | strayEscape => rfl
  | rendition params => rfl
  | control params => rfl

theorem standsFor_written {settings : Settings} (hescape : settings.escapeHtml = true)
    {chars : Text} (h : ∀ c ∈ chars, c ≠ esc) : StandsFor (written settings chars) chars := by
  rw [written_eq_escape hescape]
  exact standsFor_escape h

/-- One packet is one block or none. -/
theorem Contained.cons {settings : Settings} (hescape : settings.escapeHtml = true) {p : Packet}
    (hclean : p.token.IsClean) {ps : List Packet} {blocks : List Block}
    (h : Contained settings ps blocks) :
    ∃ front, Contained settings (p :: ps) (front ++ blocks) ∧
      p.html settings = front.flatMap Block.html := by
  cases hshown : p.isShown settings with
  | false => exact ⟨[], .silent hshown h, Packet.html_of_not_shown hshown⟩
  | true =>
      obtain ⟨start, style, t⟩ := p
      cases t with
      | text chars =>
          have hwritten : StandsFor (written settings chars) chars :=
            standsFor_written hescape hclean.2
          by_cases hstyle : style = .plain
          · subst hstyle
            refine ⟨[.bare (written settings chars)], .bare hwritten h, ?_⟩
            rw [List.flatMap_singleton]
            exact renderText_plain settings chars
          · refine ⟨[.span (attributeList settings style) (written settings chars)],
              .span hstyle (attributeList_ne_nil settings hstyle) hwritten h, ?_⟩
            rw [List.flatMap_singleton]
            exact renderText_styled settings hclean.1 hstyle
      | hyperlink url label =>
          have hallowed : isAllowed settings url = true := hshown
          have hurl : StandsFor (written settings url) url := standsFor_written hescape hclean.1
          have hlabel : StandsFor (written settings label) label :=
            standsFor_written hescape hclean.2
          refine ⟨[.anchor (written settings url) (written settings label)],
            .anchor hallowed hurl hlabel h, ?_⟩
          rw [List.flatMap_singleton]
          exact renderHyperlink_allowed hallowed label
      | strayEscape => exact absurd hshown (by simp [Packet.isShown])
      | rendition params => exact absurd hshown (by simp [Packet.isShown])
      | control params => exact absurd hshown (by simp [Packet.isShown])

theorem exists_contained {settings : Settings} (hescape : settings.escapeHtml = true)
    (ps : List Packet) (hclean : ∀ p ∈ ps, p.token.IsClean) :
    ∃ blocks, Contained settings ps blocks ∧
      ps.flatMap (Packet.html settings) = blocks.flatMap Block.html := by
  induction ps with
  | nil => exact ⟨[], .nil, rfl⟩
  | cons p ps ih =>
      obtain ⟨blocks, hblocks, hhtml⟩ := ih fun q hq => hclean q (List.mem_cons_of_mem p hq)
      obtain ⟨front, hfront, hp⟩ := hblocks.cons hescape (hclean p (List.mem_cons_self ..))
      refine ⟨front ++ blocks, hfront, ?_⟩
      rw [List.flatMap_cons, List.flatMap_append, hp, hhtml]

namespace Converter

/-! ### All calls -/

/-- The output of a step is that of the converter which the steps before it have left. -/
theorem run_getElem? (c : Converter) (before after : List Step) (s : Step) :
    (run c (before ++ s :: after)).1[before.length]? = some ((run c before).2.step s).1 := by
  induction before generalizing c with
  | nil => rfl
  | cons first before ih =>
      rw [List.cons_append, run_cons, run_cons, List.length_cons, List.getElem?_cons_succ, ih]

/--
**The input cannot write HTML.**  Whatever a session has done, the HTML of a call that
is made while escaping is on consists of the blocks of its packets, and what they show
of the input stands for the input.
-/
theorem run_contained (c : Converter) (before after : List Step) (s : Step)
    (hescape : (run c before).2.settings.escapeHtml = true) :
    let here := (run c before).2
    ∃ out blocks, (run c (before ++ s :: after)).1[before.length]? = some out ∧
      Contained here.settings (here.packets s) blocks ∧ out.html = blocks.flatMap Block.html := by
  intro here
  obtain ⟨blocks, hblocks, hhtml⟩ :=
    exists_contained hescape (here.packets s) (here.packets_clean s)
  refine ⟨(here.step s).1, blocks, run_getElem? c before after s, hblocks, ?_⟩
  rw [step_html, hhtml]

/-- Escaping may have been off before. -/
theorem run_contained_after_edits :
    let before : List Step :=
      [.edit (.escapeHtml false), .convert ['<', esc], .edit (.escapeHtml true)]
    let here := (run {} before).2
    here.settings.escapeHtml = true ∧
      ∃ out blocks, (run {} (before ++ [.convert ['<', '&'], .finish])).1[3]? = some out ∧
        Contained here.settings (here.packets (.convert ['<', '&'])) blocks ∧
        out.html = blocks.flatMap Block.html := by
  intro before here
  have hescape : here.settings.escapeHtml = true := by decide +kernel
  exact ⟨hescape, run_contained {} before [.finish] (.convert ['<', '&']) hescape⟩

end Converter

end TerminalMarkup
