/-
Conversions have no escape characters but those of the settings.

A stream has escape characters only where it breaks off or where a sequence begins, and
none of them is ever shown.  Its styles have no colours but those of the palette and those
given by octets.  So a conversion has an escape character only if a declaration of the
settings has one.
-/
import TerminalMarkup.Proofs.Converter.Containment
import TerminalMarkup.Proofs.Converter.Policy
import TerminalMarkup.Proofs.Html.EscapeFree

namespace TerminalMarkup

/-! ### Packets -/

/-- The style that packets make of a style is one that a run of renditions makes. -/
theorem Style.after_eq_run (s : Style) (ps : List Packet) :
    s.after ps = s.run (((ps.map Packet.token).filterMap Token.params?).map .rendition) := by
  rw [Style.after, Style.afterTokens, Style.run, List.foldl_map]
  rfl

theorem Style.escapeFree_after {s : Style} (hs : s.Wears Color.EscapeFree) (ps : List Packet) :
    (s.after ps).Wears Color.EscapeFree := by
  have hpalette : ∀ i, (Palette.color i).EscapeFree := fun i =>
    Html.escapeFree_of_genuine (Palette.genuine_color i)
  have hdirect : ∀ r g b : Fin 256, Color.EscapeFree ⟨r, g, b, .direct, none⟩ := by
    intro r g b stem hstem
    cases hstem
  rw [Style.after_eq_run]
  exact Style.wears_run hpalette hdirect hs _

theorem Packet.esc_not_mem_html {settings : Settings} (hsettings : settings.EscapeFree) {p : Packet}
    (hstyle : p.style.Wears Color.EscapeFree) (hclean : p.token.IsClean) :
    esc ∉ p.html settings := by
  obtain ⟨start, style, t⟩ := p
  cases t with
  | text chars =>
      exact Html.esc_not_mem_renderText hsettings hstyle fun h => hclean.2 esc h rfl
  | hyperlink url label =>
      exact Html.esc_not_mem_renderHyperlink settings (fun h => hclean.1 esc h rfl)
        fun h => hclean.2 esc h rfl
  | strayEscape => exact List.not_mem_nil
  | rendition params => exact List.not_mem_nil
  | control params => exact List.not_mem_nil

/-! ### Runs -/

namespace Converter

variable {c : Converter} {s : Step}

/-- The styles along the packets of a step are those of the renditions before, and so is the one
that the step leaves. -/
theorem styled_step (h : s.IsInput) :
    Stream.Styled c.stream.style (c.packets s) ∧
      (c.step s).2.stream.style = c.stream.style.after (c.packets s) := by
  cases s with
  | convert chunk => exact ⟨Stream.packets_styled _ 0 _, Stream.advance_style _ 0 _⟩
  | finish => exact ⟨Stream.finalPackets_styled _ 0 _, Stream.finish_style _ 0 _⟩
  | reset => cases h
  | edit e => cases h
  | replace settings => cases h

theorem esc_not_mem_step (hsettings : c.settings.EscapeFree)
    (hstyle : c.stream.style.Wears Color.EscapeFree) (h : s.IsInput) :
    esc ∉ (c.step s).1.html := by
  rw [step_html]
  intro hmem
  obtain ⟨p, hp, hhtml⟩ := List.mem_flatMap.mp hmem
  obtain ⟨front, back, hsplit⟩ := List.append_of_mem hp
  have hbefore : p.style = c.stream.style.after front := (styled_step h).1 front p back hsplit
  have hwears : p.style.Wears Color.EscapeFree := by
    rw [hbefore]
    exact Style.escapeFree_after hstyle front
  exact Packet.esc_not_mem_html hsettings hwears (packets_clean c s p hp) hhtml

/-- **What a stream is converted to has no escape characters but those of the settings.** -/
theorem esc_not_mem_run (hsettings : c.settings.EscapeFree)
    (hstyle : c.stream.style.Wears Color.EscapeFree) {steps : List Step}
    (h : ∀ s ∈ steps, s.IsInput) : esc ∉ (c.run steps).1.flatMap Output.html := by
  induction steps generalizing c with
  | nil => exact List.not_mem_nil
  | cons s steps ih =>
      have hs := h s List.mem_cons_self
      have hsettings' : (c.step s).2.settings.EscapeFree := (settings_step hs).symm ▸ hsettings
      have hstyle' : (c.step s).2.stream.style.Wears Color.EscapeFree := by
        rw [(styled_step hs).2]
        exact Style.escapeFree_after hstyle _
      rw [run_cons, List.flatMap_cons]
      exact List.not_mem_append (esc_not_mem_step hsettings hstyle hs)
        (ih hsettings' hstyle' fun other hother => h other (List.mem_cons_of_mem s hother))

end Converter

end TerminalMarkup
