/-
Schemes that no address has.

The address of a hyperlink is made of graphic characters, whatever the input is, and so is its
scheme.  An allow-list is never asked about any other, so two lists that agree where they
are asked (`AgreeOnAddresses`) have the same HTML, over all steps of a stream
(`run_html_of_agree`).

This is why it does no harm that saving settings and loading them joins the surrogate pairs in
schemes.  A scheme of graphic characters is not changed by it, and no other one becomes such
a scheme (`agreeOnAddresses_joinPairs`).
-/
import TerminalMarkup.Proofs.Converter.Policy
import TerminalMarkup.Proofs.Settings.RoundTrip

namespace TerminalMarkup

open Hyperlink (isUrl)

/-- The lists agree on all schemes that addresses can have. -/
def AllowList.AgreeOnAddresses (list list' : AllowList) : Prop :=
  ∀ scheme : Text, (∀ c ∈ scheme, isUrl c = true) → list'.allows scheme = list.allows scheme

/-! ### What is asked of a list -/

variable {settings : Settings} {list : AllowList}

theorem Html.isAllowed_of_agree (h : settings.allowList.AgreeOnAddresses list) {url : Text}
    (hurl : ∀ c ∈ url, isUrl c = true) :
    isAllowed { settings with allowList := list } url = isAllowed settings url := by
  unfold isAllowed
  cases hscheme : scheme? url with
  | none => rfl
  | some scheme =>
      obtain ⟨⟨front, back⟩, hcut, rfl⟩ := Option.map_eq_some_iff.mp hscheme
      obtain ⟨rfl, -⟩ := Text.cutAt?_eq_some.mp hcut
      exact h front fun c hc => hurl c (List.mem_append_left _ hc)

/-- The address of the token, if it has one, is made of the characters of addresses. -/
def Token.IsAddressed : Token → Prop
  | .hyperlink url _ => ∀ c ∈ url, isUrl c = true
  | _ => True

/-- Whatever the buffer holds, the address that is read from it is made of graphic characters. -/
theorem Token.isAddressed_of_read {buffer rest : Text} {t : Token}
    (h : read buffer = .token t rest) : t.IsAddressed := by
  obtain ⟨word, hspells, -⟩ := spells_of_read h
  cases t with
  | text chars => trivial
  | hyperlink url label =>
      obtain ⟨l, ⟨-, hurl, -⟩, rfl, -⟩ := hspells.of_hyperlink
      exact hurl
  | strayEscape => trivial
  | rendition params => trivial
  | control params => trivial

theorem Packet.html_of_agree (h : settings.allowList.AgreeOnAddresses list) {p : Packet}
    (hp : p.token.IsAddressed) :
    p.html { settings with allowList := list } = p.html settings := by
  obtain ⟨start, style, t⟩ := p
  cases t with
  | text chars => rfl
  | hyperlink url label =>
      rw [Packet.html, Token.html, Html.renderHyperlink, Html.isAllowed_of_agree h hp]
      rfl
  | strayEscape => rfl
  | rendition params => rfl
  | control params => rfl

/-! ### Steps of a stream -/

namespace Converter

variable {stream : Stream}

theorem step_html_of_agree (h : settings.allowList.AgreeOnAddresses list) (s : Step) :
    (step ⟨{ settings with allowList := list }, stream⟩ s).1.html
      = (step ⟨settings, stream⟩ s).1.html := by
  have hpackets : packets ⟨{ settings with allowList := list }, stream⟩ s
      = packets ⟨settings, stream⟩ s := by cases s <;> rfl
  rw [step_html, step_html, hpackets]
  refine List.flatMap_congr fun p hp => Packet.html_of_agree h ?_
  exact forall_packets Token.isAddressed_of_read _ s p hp

/-- **The HTML of a stream does not hang on schemes that no address has.** -/
theorem run_html_of_agree (h : settings.allowList.AgreeOnAddresses list) {steps : List Step}
    (hsteps : ∀ s ∈ steps, s.IsInput) :
    (run ⟨{ settings with allowList := list }, stream⟩ steps).1.flatMap Output.html
      = (run ⟨settings, stream⟩ steps).1.flatMap Output.html := by
  induction steps generalizing stream with
  | nil => rfl
  | cons s steps ih =>
      have hs := hsteps s List.mem_cons_self
      have hrest := fun other hother => hsteps other (List.mem_cons_of_mem s hother)
      -- The stream never looks at the settings.
      have hnext (any : Settings) :
          (step ⟨any, stream⟩ s).2 = ⟨any, (step ⟨settings, stream⟩ s).2.stream⟩ := by
        cases s with
        | convert chunk => rfl
        | finish => rfl
        | reset => cases hs
        | edit e => cases hs
        | replace settings => cases hs
      rw [run_cons, run_cons, List.flatMap_cons, List.flatMap_cons, step_html_of_agree h, hnext,
        hnext settings, ih hrest]

theorem convertAll_html_of_agree (h : settings.allowList.AgreeOnAddresses list) (t : Text) :
    (convertAll { settings with allowList := list } t).html = (convertAll settings t).html := by
  have hsteps : ∀ s ∈ [Step.convert t, .finish], s.IsInput := by
    intro s hs
    simp only [List.mem_cons, List.not_mem_nil, or_false] at hs
    rcases hs with rfl | rfl <;> trivial
  exact run_html_of_agree h hsteps

end Converter

/-! ### Lists that were saved and loaded -/

/-- **Joining pairs says nothing else about the schemes of addresses.** -/
theorem Settings.agreeOnAddresses_joinPairs (s : Settings) :
    s.allowList.AgreeOnAddresses s.joinPairs.allowList := by
  intro scheme hscheme
  have hchars : ∀ c ∈ scheme, c.toNat < 0xd800 := by
    intro c hc
    have hgraphic := Hyperlink.isGraphic_of_isUrl (hscheme c hc)
    simp only [ControlSequence.isGraphic, Bool.and_eq_true, decide_eq_true_eq] at hgraphic
    omega
  have hjoined : Entries.get? scheme s.joinPairs.allowList.entries
      = Entries.get? scheme (Entries.ofPairs s.allowList.entries) :=
    Entries.get?_ofPairs_map (fun _ => Json.joinPairs_eq_iff hchars) _
  rw [AllowList.allows, AllowList.allows, hjoined,
    Entries.ofPairs_of_nodup s.allowList.distinct]

end TerminalMarkup
