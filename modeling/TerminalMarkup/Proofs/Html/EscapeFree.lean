/-
Where escape characters in HTML come from.

What is written around the text that is shown is made of words of this library, of digits,
and of what the settings have the four attributes declared by.  So HTML has an escape
character only if one of these declarations has one, or the text, and a page only if its
title has one besides.

Colours are the one thing that has to be looked at.  Their type admits any name, and those of
the palette are without escape characters.
-/
import TerminalMarkup.Html.Page
import TerminalMarkup.Html.Render
import TerminalMarkup.Html.Stylesheet
import TerminalMarkup.Proofs.Html.Escaping
import TerminalMarkup.Proofs.Style.Colors

namespace TerminalMarkup

/-- There is no escape character in the declarations of the settings. -/
def Settings.EscapeFree (settings : Settings) : Prop := ∀ css ∈ settings.styleTexts, esc ∉ css

/-- There is no escape character in the name of the colour, if it has one. -/
def Color.EscapeFree (c : Color) : Prop := ∀ stem ∈ c.stem?, esc ∉ stem

namespace Html

variable {settings : Settings}

/-! ### Colours -/

theorem esc_not_mem_ofNat (n : Nat) : esc ∉ Text.ofNat n := by
  intro h
  obtain ⟨c, hc, heq⟩ := List.mem_map.mp h
  have hdigit := Nat.isDigit_of_mem_toDigits (by decide) (by decide) hc
  rw [CodePoint.scalar.inj heq] at hdigit
  exact absurd hdigit (by decide)

theorem esc_not_mem_css (c : Color) : esc ∉ c.css := by
  have hopening : esc ∉ "rgb(".toText := by decide
  have hcomma : esc ∉ ",".toText := by decide
  have hclosing : esc ∉ ")".toText := by decide
  have hred := List.not_mem_append hopening (esc_not_mem_ofNat c.red)
  have hgreen := List.not_mem_append (List.not_mem_append hred hcomma) (esc_not_mem_ofNat c.green)
  have hblue := List.not_mem_append (List.not_mem_append hgreen hcomma) (esc_not_mem_ofNat c.blue)
  exact List.not_mem_append hblue hclosing

theorem esc_not_mem_stem_of_mem_named : ∀ c ∈ Palette.named, esc ∉ c.stem := by decide

/-- Genuine colours have no other names than those of the palette. -/
theorem escapeFree_of_genuine {c : Color} (h : c.Genuine) : c.EscapeFree := by
  intro stem hstem
  rw [Color.eq_stem_of_mem_stem? hstem]
  exact esc_not_mem_stem_of_mem_named c (h stem hstem)

/-! ### Declarations and classes -/

/-- The declaration is one of the settings, or that of a colour. -/
def Declaration.IsOf (settings : Settings) : Declaration → Prop
  | .custom css => css ∈ settings.styleTexts
  | _ => True

theorem Declaration.esc_not_mem_inline (hsettings : settings.EscapeFree) {d : Declaration}
    (h : d.IsOf settings) : esc ∉ d.inline := by
  cases d with
  | custom css => exact hsettings css h
  | color c =>
      have hproperty : esc ∉ "color:".toText := by decide
      exact List.not_mem_append hproperty (esc_not_mem_css c)
  | backgroundColor c =>
      have hproperty : esc ∉ "background-color:".toText := by decide
      exact List.not_mem_append hproperty (esc_not_mem_css c)

theorem Declaration.esc_not_mem_spaced (hsettings : settings.EscapeFree) {d : Declaration}
    (h : d.IsOf settings) : esc ∉ d.spaced := by
  cases d with
  | custom css => exact hsettings css h
  | color c =>
      have hproperty : esc ∉ "color: ".toText := by decide
      exact List.not_mem_append hproperty (esc_not_mem_css c)
  | backgroundColor c =>
      have hproperty : esc ∉ "background-color: ".toText := by decide
      exact List.not_mem_append hproperty (esc_not_mem_css c)

/-- What is declared in place is declared by the settings or as a colour. -/
theorem isOf_ofStyle (settings : Settings) (s : Style) :
    ∀ d ∈ (Appearance.ofStyle settings s).declarations, d.IsOf settings := by
  have hcustom : ∀ css ∈ settings.styleTexts, ∀ on : Bool,
      ∀ d ∈ (if on then [Declaration.custom css] else []), d.IsOf settings := by
    intro css hcss on d hd
    cases on with
    | true =>
        obtain rfl := List.mem_singleton.mp hd
        exact hcss
    | false => exact absurd hd List.not_mem_nil
  have hcolor : ∀ (make : Color → Declaration) (color : Option Color),
      (∀ c, (make c).IsOf settings) → ∀ d ∈ (color.map make).toList, d.IsOf settings := by
    intro make color hmake d hd
    obtain ⟨c, -, rfl⟩ := Option.map_eq_some_iff.mp (Option.mem_toList.mp hd)
    exact hmake c
  unfold Appearance.ofStyle
  split
  · intro d hd
    rcases List.mem_append.mp hd with hd | hd
    · exact hcolor .color _ (fun _ => trivial) d hd
    · exact hcolor .backgroundColor _ (fun _ => trivial) d hd
  · intro d hd
    simp only [Appearance.declared, List.mem_append] at hd
    rcases hd with ((((hd | hd) | hd) | hd) | hd) | hd
    · exact hcustom _ (by simp [Settings.styleTexts]) s.bold d hd
    · exact hcustom _ (by simp [Settings.styleTexts]) s.faint d hd
    · exact hcustom _ (by simp [Settings.styleTexts]) s.italic d hd
    · exact hcustom _ (by simp [Settings.styleTexts]) s.underline d hd
    · exact hcolor .color _ (fun _ => trivial) d hd
    · exact hcolor .backgroundColor _ (fun _ => trivial) d hd

theorem esc_not_mem_class {suffix : Text} {c : Color} (hc : c.EscapeFree) (hsuffix : esc ∉ suffix) :
    ∀ name ∈ c.stem?.map (· ++ suffix), esc ∉ name := by
  intro name hname
  obtain ⟨stem, hstem, rfl⟩ := Option.map_eq_some_iff.mp hname
  exact List.not_mem_append (hc stem hstem) hsuffix

theorem esc_not_mem_classes (settings : Settings) {s : Style} (hs : s.Wears Color.EscapeFree) :
    ∀ name ∈ (Appearance.ofStyle settings s).classes, esc ∉ name := by
  have hword : ∀ word : Text, esc ∉ word → ∀ on : Bool,
      ∀ name ∈ (if on then [word] else []), esc ∉ name := by
    intro word hfree on name hname
    cases on with
    | true =>
        obtain rfl := List.mem_singleton.mp hname
        exact hfree
    | false => exact absurd hname List.not_mem_nil
  have hcolor : ∀ (suffix : Text) (color : Option Color), esc ∉ suffix →
      (∀ c ∈ color, c.EscapeFree) →
      ∀ name ∈ (color.bind fun c => c.stem?.map (· ++ suffix)).toList, esc ∉ name := by
    intro suffix color hsuffix hfree name hname
    obtain ⟨c, hc, hclass⟩ := Option.bind_eq_some_iff.mp (Option.mem_toList.mp hname)
    exact esc_not_mem_class (hfree c hc) hsuffix name hclass
  unfold Appearance.ofStyle
  split
  · intro name hname
    simp only [Appearance.styleClasses, List.mem_append] at hname
    rcases hname with ((((hname | hname) | hname) | hname) | hname) | hname
    · exact hword _ (by decide) s.bold name hname
    · exact hword _ (by decide) s.faint name hname
    · exact hword _ (by decide) s.italic name hname
    · exact hword _ (by decide) s.underline name hname
    · exact hcolor _ s.foreground (by decide) hs.foreground name hname
    · exact hcolor _ s.background (by decide) hs.background name hname
  · exact fun name hname => absurd hname List.not_mem_nil

/-! ### Pieces -/

theorem esc_not_mem_intercalate {separator : Text} {items : List Text}
    (hseparator : esc ∉ separator) (h : ∀ item ∈ items, esc ∉ item) :
    esc ∉ separator.intercalate items := by
  induction items with
  | nil => exact List.not_mem_nil
  | cons item items ih =>
      have hitem := h item List.mem_cons_self
      have hrest := ih fun other hother => h other (List.mem_cons_of_mem item hother)
      cases items with
      | nil => simpa using hitem
      | cons next items =>
          rw [List.intercalate_cons_cons]
          exact List.not_mem_append (List.not_mem_append hitem hseparator) hrest

theorem esc_not_mem_listAttribute {name separator : Text} {items : List Text} (hname : esc ∉ name)
    (hseparator : esc ∉ separator) (h : ∀ item ∈ items, esc ∉ item) :
    esc ∉ Appearance.listAttribute name separator items := by
  have hopening : esc ∉ "=\"".toText := by decide
  have hclosing : esc ∉ "\"".toText := by decide
  have hspace : esc ∉ " ".toText := by decide
  unfold Appearance.listAttribute
  split
  · exact List.not_mem_nil
  · have hvalue := esc_not_mem_intercalate hseparator h
    have hfront := List.not_mem_append (List.not_mem_append hspace hname) hopening
    exact List.not_mem_append (List.not_mem_append hfront hvalue) hclosing

theorem esc_not_mem_attributes (hsettings : settings.EscapeFree) {s : Style}
    (hs : s.Wears Color.EscapeFree) : esc ∉ (Appearance.ofStyle settings s).attributes := by
  refine List.not_mem_append ?_ ?_
  · refine esc_not_mem_listAttribute (by decide) (by decide) fun item hitem => ?_
    obtain ⟨d, hd, rfl⟩ := List.mem_map.mp hitem
    exact d.esc_not_mem_inline hsettings (isOf_ofStyle settings s d hd)
  · exact esc_not_mem_listAttribute (by decide) (by decide) (esc_not_mem_classes settings hs)

theorem esc_not_mem_written (settings : Settings) {t : Text} (h : esc ∉ t) :
    esc ∉ written settings t := by
  unfold written
  split
  · exact fun hmem => h ((mem_escape hmem).2 rfl)
  · exact h

theorem esc_not_mem_renderText (hsettings : settings.EscapeFree) {s : Style}
    (hs : s.Wears Color.EscapeFree) {chars : Text} (h : esc ∉ chars) :
    esc ∉ renderText settings s chars := by
  have hopening : esc ∉ "<span".toText := by decide
  have hend : esc ∉ ">".toText := by decide
  have hclosing : esc ∉ "</span>".toText := by decide
  have hwritten := esc_not_mem_written settings h
  unfold renderText
  split
  · exact List.not_mem_nil
  split
  · exact hwritten
  · have hfront := List.not_mem_append hopening (esc_not_mem_attributes hsettings hs)
    have htag := List.not_mem_append hfront hend
    exact List.not_mem_append (List.not_mem_append htag hwritten) hclosing

theorem esc_not_mem_renderHyperlink (settings : Settings) {url label : Text} (hurl : esc ∉ url)
    (hlabel : esc ∉ label) : esc ∉ renderHyperlink settings url label := by
  have hopening : esc ∉ "<a href=\"".toText := by decide
  have hend : esc ∉ "\">".toText := by decide
  have hclosing : esc ∉ "</a>".toText := by decide
  unfold renderHyperlink
  split
  · have hfront := List.not_mem_append hopening (esc_not_mem_written settings hurl)
    have htag := List.not_mem_append hfront hend
    have hshown := List.not_mem_append htag (esc_not_mem_written settings hlabel)
    exact List.not_mem_append hshown hclosing
  · exact List.not_mem_nil

/-! ### Style sheets and pages -/

theorem isOf_rules (settings : Settings) :
    ∀ r ∈ Stylesheet.rules settings, r.declaration.IsOf settings ∧ esc ∉ r.className := by
  intro r hr
  rcases List.mem_append.mp hr with hr | hr
  · simp only [List.mem_cons, List.not_mem_nil, or_false] at hr
    have hbold : esc ∉ "bold".toText := by decide
    have hfaint : esc ∉ "faint".toText := by decide
    have hitalic : esc ∉ "italic".toText := by decide
    have hunderline : esc ∉ "underline".toText := by decide
    rcases hr with rfl | rfl | rfl | rfl
    · exact ⟨by simp [Declaration.IsOf, Settings.styleTexts], hbold⟩
    · exact ⟨by simp [Declaration.IsOf, Settings.styleTexts], hfaint⟩
    · exact ⟨by simp [Declaration.IsOf, Settings.styleTexts], hitalic⟩
    · exact ⟨by simp [Declaration.IsOf, Settings.styleTexts], hunderline⟩
  · obtain ⟨c, hc, hrule⟩ := List.mem_flatMap.mp hr
    have hstem := esc_not_mem_stem_of_mem_named c hc
    simp only [Stylesheet.colorRules, List.mem_cons, List.not_mem_nil, or_false] at hrule
    rcases hrule with rfl | rfl
    · exact ⟨trivial, List.not_mem_append hstem (by decide)⟩
    · exact ⟨trivial, List.not_mem_append hstem (by decide)⟩

theorem esc_not_mem_stylesheet (hsettings : settings.EscapeFree) : esc ∉ stylesheet settings := by
  intro h
  obtain ⟨r, hr, hline⟩ := List.mem_flatMap.mp h
  obtain ⟨hdeclaration, hname⟩ := isOf_rules settings r hr
  have hdot : esc ∉ ".".toText := by decide
  have hopening : esc ∉ " \x7b ".toText := by decide
  have hclosing : esc ∉ "; \x7d\n".toText := by decide
  have hfront := List.not_mem_append (List.not_mem_append hdot hname) hopening
  have hbody := List.not_mem_append hfront (r.declaration.esc_not_mem_spaced hsettings hdeclaration)
  exact List.not_mem_append hbody hclosing hline

theorem Page.esc_not_mem_render {p : Page} (htitle : esc ∉ p.title) (hcss : esc ∉ p.css)
    (hbody : esc ∉ p.body) : esc ∉ p.render := by
  have hopening : esc ∉ opening := by decide
  have hmiddle : esc ∉ "</title>\n".toText := by decide
  have hpre : esc ∉ "</head>\n<body>\n<pre>".toText := by decide
  have hclosing : esc ∉ "</pre>\n</body>\n</html>\n".toText := by decide
  have hescaped : esc ∉ escape p.title := fun h => htitle ((mem_escape h).2 rfl)
  have hstyle : esc ∉ styleElement p.css := by
    have hbegin : esc ∉ "<style>\n".toText := by decide
    have hend : esc ∉ "</style>\n".toText := by decide
    unfold styleElement
    split
    · exact List.not_mem_nil
    · exact List.not_mem_append (List.not_mem_append hbegin hcss) hend
  have hhead := List.not_mem_append (List.not_mem_append hopening hescaped) hmiddle
  have hfront := List.not_mem_append (List.not_mem_append hhead hstyle) hpre
  exact List.not_mem_append (List.not_mem_append hfront hbody) hclosing

end Html

end TerminalMarkup
