/-
Hyperlinks go by the allow-list in force.

A hyperlink that comes out of a call is an anchor if the allow-list permits its address,
and otherwise it is nothing.  Which allow-list that is has to be said with care: settings
are objects that are changed and replaced while the first half of a link may be waiting
in the buffer.  It is the one that the converter's settings refer to when the call is
made that reads the link.

What a packet contributes is said in `GoesByList` and proved for any settings; the rest
is about sessions, and there it only has to be seen which settings those are.
-/
import TerminalMarkup.Proofs.Converter.Containment
import TerminalMarkup.Proofs.Entries
import TerminalMarkup.Proofs.Session

namespace TerminalMarkup

/-! ### Addresses -/

theorem Text.cutAt?_eq_some {sep : CodePoint} {t front back : Text} :
    cutAt? sep t = some (front, back) ↔ t = front ++ sep :: back ∧ sep ∉ front := by
  induction t generalizing front with
  | nil => simp [cutAt?]
  | cons c rest ih =>
      rw [cutAt?]
      by_cases hsep : c = sep
      · subst hsep
        rw [if_pos rfl]
        constructor
        · intro h
          cases h
          exact ⟨rfl, List.not_mem_nil⟩
        · rintro ⟨h, hfront⟩
          cases front with
          | nil =>
              cases h
              rfl
          | cons f front =>
              obtain ⟨rfl, -⟩ := List.cons.inj h
              exact absurd List.mem_cons_self hfront
      · rw [if_neg hsep]
        constructor
        · intro h
          obtain ⟨⟨a, b⟩, hcut, hpair⟩ := Option.map_eq_some_iff.mp h
          cases hpair
          obtain ⟨rfl, ha⟩ := ih.mp hcut
          refine ⟨rfl, ?_⟩
          intro hmem
          rcases List.mem_cons.mp hmem with h | h
          · exact hsep h.symm
          · exact ha h
        · rintro ⟨h, hfront⟩
          cases front with
          | nil => exact absurd (List.cons.inj h).1 hsep
          | cons f front =>
              obtain ⟨rfl, hrest⟩ := List.cons.inj h
              have hnot : sep ∉ front := fun hmem => hfront (List.mem_cons_of_mem c hmem)
              rw [ih.mpr ⟨hrest, hnot⟩]
              rfl

/-- The text before the first colon of the address is a scheme that the list allows. -/
def AllowList.Permits (list : AllowList) (url : Text) : Prop :=
  ∃ scheme rest, url = scheme ++ .scalar ':' :: rest ∧ (':' : CodePoint) ∉ scheme ∧
    (scheme, true) ∈ list.entries

theorem AllowList.allows_iff {list : AllowList} {scheme : Text} :
    list.allows scheme = true ↔ (scheme, true) ∈ list.entries := by
  rw [allows, beq_iff_eq]
  constructor
  · exact Entries.mem_of_get?
  · exact Entries.get?_of_mem list.distinct

theorem Html.isAllowed_iff {settings : Settings} {url : Text} :
    isAllowed settings url = true ↔ settings.allowList.Permits url := by
  unfold isAllowed scheme?
  constructor
  · intro h
    cases hcut : Text.cutAt? ':' url with
    | none =>
        rw [hcut] at h
        cases h
    | some parts =>
        rw [hcut] at h
        obtain ⟨hurl, hscheme⟩ := Text.cutAt?_eq_some.mp hcut
        exact ⟨parts.1, parts.2, hurl, hscheme, AllowList.allows_iff.mp h⟩
  · rintro ⟨scheme, rest, hurl, hscheme, hentry⟩
    rw [Text.cutAt?_eq_some.mpr ⟨hurl, hscheme⟩]
    exact AllowList.allows_iff.mpr hentry

/-! ### Styles along the packets -/

/-- The style that the renditions among packets make of a style, whatever else is among them. -/
def Style.after (s : Style) (ps : List Packet) : Style := s.afterTokens (ps.map Packet.token)

theorem Style.after_cons (s : Style) (p : Packet) (ps : List Packet) :
    s.after (p :: ps) = (Stream.styleAfter s p.token).after ps :=
  afterTokens_cons s p.token (ps.map Packet.token)

namespace Stream

/-- The style in force at each packet is that of the renditions before it. -/
def Styled (s : Style) (ps : List Packet) : Prop :=
  ∀ front p back, ps = front ++ p :: back → p.style = s.after front

theorem styled_nil (s : Style) : Styled s [] := by
  intro front p back h
  exact absurd h.symm (List.append_ne_nil_of_right_ne_nil front (List.cons_ne_nil p back))

theorem styled_cons {s : Style} {p : Packet} {ps : List Packet} (hp : p.style = s)
    (h : Styled (styleAfter s p.token) ps) : Styled s (p :: ps) := by
  intro front q back hsplit
  cases front with
  | nil =>
      obtain ⟨rfl, -⟩ := List.cons.inj hsplit
      exact hp
  | cons f front =>
      obtain ⟨rfl, hrest⟩ := List.cons.inj hsplit
      rw [Style.after_cons]
      exact h front q back hrest

theorem packets_styled (buffer : Text) : ∀ (start : Nat) (s : Style),
    Styled s (packets start ⟨buffer, s⟩) := by
  induction buffer using Token.read_induction with
  | stuck buffer h =>
      intro start s
      rw [packets_of_stuck h]
      exact styled_nil s
  | token buffer t rest h ih =>
      intro start s
      rw [packets_of_token h]
      exact styled_cons rfl (ih _ _)

theorem finalPackets_styled (buffer : Text) : ∀ (start : Nat) (s : Style),
    Styled s (finalPackets start ⟨buffer, s⟩) := by
  induction buffer using Token.end_induction with
  | nil =>
      intro start s
      rw [finalPackets_nil]
      exact styled_nil s
  | token buffer t rest h ih =>
      intro start s
      rw [finalPackets_of_token h]
      exact styled_cons rfl (ih _ _)
  | unfinished tail h ih =>
      intro start s
      rw [finalPackets_of_unfinished h]
      exact ih (start + 1) s

end Stream

/-! ### What a packet contributes -/

/-- What the packet contributes is settled by its token, its style and the allow-list. -/
structure Packet.GoesByList (settings : Settings) (p : Packet) : Prop where
  /-- A permitted hyperlink is an anchor. -/
  linked : ∀ url label, p.token = .hyperlink url label → settings.allowList.Permits url →
    p.html settings =
      "<a href=\"".toText ++ (if settings.escapeHtml then Html.escape url else url)
        ++ "\">".toText ++ (if settings.escapeHtml then Html.escape label else label)
        ++ "</a>".toText
  /-- Any other hyperlink is nothing. -/
  dropped : ∀ url label, p.token = .hyperlink url label → ¬settings.allowList.Permits url →
    p.html settings = []
  /-- Text is bare or in a span, and while escaping is on no tag begins in it. -/
  text : ∀ chars, p.token = .text chars →
    let shown := if settings.escapeHtml then Html.escape chars else chars
    p.html settings =
      (if p.style = .plain then Html.Block.bare shown
        else .span (Html.attributeList settings p.style) shown).html ∧
    (settings.escapeHtml = true → ('<' : CodePoint) ∉ shown)
  /-- There is nothing for what is neither. -/
  silent : (∀ url label, p.token ≠ .hyperlink url label) → (∀ chars, p.token ≠ .text chars) →
    p.html settings = []

theorem Html.not_mem_escape {chars : Text} (hclean : ∀ c ∈ chars, c ≠ esc) :
    ('<' : CodePoint) ∉ escape chars :=
  fun hmem => noMarkup_escape hclean '<' hmem (Or.inl rfl)

theorem Packet.goesByList {settings : Settings} {p : Packet} (hclean : p.token.IsClean) :
    p.GoesByList settings := by
  obtain ⟨start, style, t⟩ := p
  refine ⟨?_, ?_, ?_, ?_⟩
  · rintro url label rfl hpermits
    exact Html.renderHyperlink_allowed (Html.isAllowed_iff.mpr hpermits) label
  · rintro url label rfl hnot
    exact if_neg fun h => hnot (Html.isAllowed_iff.mp h)
  · rintro chars rfl shown
    refine ⟨?_, ?_⟩
    · by_cases hstyle : style = .plain
      · subst hstyle
        exact Html.renderText_plain settings chars
      · rw [if_neg hstyle]
        exact Html.renderText_styled settings hclean.1 hstyle
    · intro hescape
      have hshown : shown = Html.escape chars := if_pos hescape
      rw [hshown]
      exact Html.not_mem_escape hclean.2
  · intro hlink htext
    cases t with
    | text chars => exact absurd rfl (htext chars)
    | hyperlink url label => exact absurd rfl (hlink url label)
    | strayEscape => rfl
    | rendition params => rfl
    | control params => rfl

namespace Session

/-! ### A call -/

/-- The packets that a call reads. -/
def packets (here : Session) (c : Call) : List Packet :=
  Converter.packets ⟨here.inForce, here.stream⟩ c.step

/-- The style of each packet is that of the renditions before it, and so is the style left. -/
theorem styled_call (s : Session) (c : Call) :
    Stream.Styled s.stream.style (s.packets c) ∧
      (s.step (.call c)).2.stream.style = s.stream.style.after (s.packets c) := by
  cases c with
  | convert chunk => exact ⟨Stream.packets_styled _ 0 _, Stream.advance_style _ 0 _⟩
  | finish => exact ⟨Stream.finalPackets_styled _ 0 _, Stream.finish_style _ 0 _⟩

/--
**Hyperlinks go by the allow-list in force.**  Whatever a session has done before a call, the HTML
of the call is what its packets contribute under the settings that were put in force last, as
they are when the call is made; no hyperlink has changed a style; the stream is what it would be
under any other settings; and changes elsewhere are not noticed.
-/
theorem run_policy (objects : Objects) (settings : SettingsRef) (before after : List Action)
    (c : Call) :
    let here := ((start objects settings).run before).2
    ∃ out,
      ((start objects settings).run (before ++ .call c :: after)).1[before.length]? = some out ∧
      here.settings = (before.filterMap Action.replacement?).getLastD settings ∧
      out.html = (here.packets c).flatMap (Packet.html here.inForce) ∧
      (∀ p ∈ here.packets c, p.GoesByList here.inForce) ∧
      Stream.Styled here.stream.style (here.packets c) ∧
      (here.step (.call c)).2.stream.style = here.stream.style.after (here.packets c) ∧
      (∀ any, here.stream =
        (Converter.run { settings := any } (before.filterMap Action.arrival?)).2.stream) ∧
      (((start objects settings).run
        (before.filter fun a => !a.isElsewhere here)).2.step (.call c)).1 = out := by
  intro here
  have hstart : (start objects settings).Settled := rfl
  have hsettled : here.Settled := settled_run hstart before
  have hconverter : here.converter = ⟨here.inForce, here.stream⟩ := converter_of_settled hsettled
  obtain ⟨hstyled, hstyle⟩ := styled_call here c
  refine ⟨(here.step (.call c)).1, run_getElem? _ before after (.call c), settings_run _ before,
    ?_, ?_, hstyled, hstyle, ?_, ?_⟩
  · show (here.converter.step c.step).1.html = _
    rw [hconverter]
    exact Converter.step_html _ c.step
  · intro p hp
    exact Packet.goesByList (Converter.packets_clean _ c.step p hp)
  · intro any
    exact (congrArg Converter.stream (stream_run (start objects settings) before any)).symm
  · have hagree : Agree here here ((start objects settings).run
        (before.filter fun a => !a.isElsewhere here)).2 :=
      agree_run ⟨rfl, rfl, rfl, rfl, rfl⟩ before
    show (converter _ |>.step c.step).1 = (here.converter.step c.step).1
    rw [converter_of_agree hagree hsettled]

end Session

end TerminalMarkup
