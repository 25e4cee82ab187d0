/-
Classes say what declarations say.

A style can be expressed in two ways: by declarations where it is used, or by class
names for which the style sheet has rules.  The second way is as good as the first if
looking up the classes gives the declarations back.  The text of the style sheet is the
lines of its rules, each a class name and a declaration in braces.  `classRules` are the
rules that a style refers to.  Three facts are needed of them.

  * Their names are the classes of the style.
  * They are rules of the style sheet, and no other rule there has any of their names.
    For a colour this needs that it is one of the named entries of the palette, which
    the colours of a style that has come about by renditions are (`Style.Genuine`).
  * Their declarations, and those of the colours that have no class, are the
    declarations of the style, though not always in the same order.
-/
import Mathlib.Data.List.Nodup
import TerminalMarkup.Html.Stylesheet
import TerminalMarkup.Proofs.Html.Rendering
import TerminalMarkup.Proofs.Style.Colors

namespace TerminalMarkup.Html

/-! ### The rules of the style sheet -/

/-- The two ways to write a declaration differ by the space after the colon, if at all. -/
theorem Declaration.spaced_cases (d : Declaration) :
    d.spaced = d.inline ∨ ∃ property value,
      d.inline = property ++ ":".toText ++ value ∧ d.spaced = property ++ ": ".toText ++ value := by
  cases d with
  | custom css => exact Or.inl rfl
  | color c => exact Or.inr ⟨"color".toText, c.css, rfl, rfl⟩
  | backgroundColor c => exact Or.inr ⟨"background-color".toText, c.css, rfl, rfl⟩

namespace Stylesheet

/-- The class has exactly one rule. -/
def IsRuleOf (settings : Settings) (name : Text) (r : Rule) : Prop :=
  (rules settings).filter (fun r => decide (r.className = name)) = [r]

theorem nodup_className (settings : Settings) :
    ((rules settings).map Rule.className).Nodup := by
  -- The names do not depend on the settings.
  have hnames : (rules settings).map Rule.className = (rules {}).map Rule.className := rfl
  rw [hnames]
  decide +kernel

theorem isRuleOf_of_mem {settings : Settings} {r : Rule} (h : r ∈ rules settings) :
    IsRuleOf settings r.className r := by
  have hnodup := nodup_className settings
  have hsame : ∀ other ∈ rules settings,
      decide (other.className = r.className) = decide (other = r) := by
    intro other hother
    have hinj := List.inj_on_of_nodup_map hnodup hother h
    exact decide_eq_decide.mpr ⟨hinj, fun heq => heq ▸ rfl⟩
  rw [IsRuleOf, List.filter_congr hsame, List.filter_eq,
    List.count_eq_one_of_mem hnodup.of_map h, List.replicate_one]

theorem colorRules_subset {settings : Settings} {c : Color} (h : c ∈ Palette.named) :
    colorRules c ⊆ rules settings := by
  intro r hr
  exact List.mem_append_right _ (List.mem_flatMap.mpr ⟨c, h, hr⟩)

end Stylesheet

/-! ### The rules of a style -/

namespace Appearance

/-- The rule for a colour, if it is named: `className` makes a class of the stem. -/
def colorRule? (className : Text → Text) (declaration : Color → Declaration) (c : Color) :
    Option Rule :=
  c.stem?.map fun stem => ⟨className stem, declaration c⟩

/-- The rules for the colour of a layer, if there is a colour and it is named. -/
def layerRules (className : Text → Text) (declaration : Color → Declaration)
    (color : Option Color) : List Rule :=
  (color.bind (colorRule? className declaration)).toList

/-- The rules for the attributes of a style. -/
def attributeRules (settings : Settings) (s : Style) : List Rule :=
  (if s.bold then [⟨"bold".toText, .custom settings.boldStyle⟩] else []) ++
  (if s.faint then [⟨"faint".toText, .custom settings.faintStyle⟩] else []) ++
  (if s.italic then [⟨"italic".toText, .custom settings.italicStyle⟩] else []) ++
  (if s.underline then [⟨"underline".toText, .custom settings.underlineStyle⟩] else [])

/-- The rules that a style refers to when classes are in use. -/
def classRules (settings : Settings) (s : Style) : List Rule :=
  attributeRules settings s ++
  layerRules (· ++ "-fg".toText) .color s.foreground ++
  layerRules (· ++ "-bg".toText) .backgroundColor s.background

/-! ### Their names -/

theorem map_className_layerRules (className : Text → Text) (declaration : Color → Declaration)
    (color : Option Color) :
    (layerRules className declaration color).map Rule.className
      = (color.bind fun c => c.stem?.map className).toList := by
  cases color with
  | none => rfl
  | some c =>
      cases hstem : c.stem? with
      | none => simp [layerRules, colorRule?, hstem]
      | some stem => simp [layerRules, colorRule?, hstem]

theorem map_className_classRules (settings : Settings) (s : Style) :
    (classRules settings s).map Rule.className = styleClasses s := by
  simp only [classRules, attributeRules, List.map_append, map_className_layerRules,
    apply_ite (List.map Rule.className), List.map_cons, List.map_nil]
  rfl

/-! ### Their place in the style sheet -/

theorem mem_rules_of_mem_layerRules {settings : Settings} {className : Text → Text}
    {declaration : Color → Declaration} {color : Option Color}
    (hcolor : ∀ c ∈ color, c.Genuine)
    (hrules : ∀ c, ∀ rule ∈ colorRule? className declaration c, rule ∈ Stylesheet.colorRules c)
    {r : Rule} (hr : r ∈ layerRules className declaration color) :
    r ∈ Stylesheet.rules settings := by
  simp only [layerRules, Option.mem_toList, Option.bind_eq_some_iff] at hr
  obtain ⟨c, hc, hr⟩ := hr
  obtain ⟨stem, hstem, -⟩ := Option.map_eq_some_iff.mp hr
  exact Stylesheet.colorRules_subset (hcolor c hc stem hstem) (hrules c r hr)

theorem mem_rules_of_mem_classRules (settings : Settings) {s : Style} (hs : s.Genuine) {r : Rule}
    (hr : r ∈ classRules settings s) : r ∈ Stylesheet.rules settings := by
  simp only [classRules, List.mem_append] at hr
  rcases hr with (hr | hr) | hr
  · have hattribute : r = ⟨"bold".toText, .custom settings.boldStyle⟩ ∨
        r = ⟨"faint".toText, .custom settings.faintStyle⟩ ∨
        r = ⟨"italic".toText, .custom settings.italicStyle⟩ ∨
        r = ⟨"underline".toText, .custom settings.underlineStyle⟩ := by
      simp only [attributeRules, List.mem_append, List.mem_ite_nil_right, List.mem_singleton] at hr
      tauto
    exact List.mem_append_left _ (by simpa using hattribute)
  · refine mem_rules_of_mem_layerRules hs.foreground ?_ hr
    intro c rule hrule
    obtain ⟨stem, hstem, rfl⟩ := Option.map_eq_some_iff.mp hrule
    rw [Color.eq_stem_of_mem_stem? hstem]
    exact List.mem_cons_self
  · refine mem_rules_of_mem_layerRules hs.background ?_ hr
    intro c rule hrule
    obtain ⟨stem, hstem, rfl⟩ := Option.map_eq_some_iff.mp hrule
    rw [Color.eq_stem_of_mem_stem? hstem]
    exact List.mem_cons_of_mem _ List.mem_cons_self

/-! ### Their declarations -/

/-- A colour has a rule or is declared. -/
theorem map_declaration_layerRules (className : Text → Text) (declaration : Color → Declaration)
    (color : Option Color) :
    (layerRules className declaration color).map Rule.declaration ++
        ((color.filter (·.stem?.isNone)).map declaration).toList
      = (color.map declaration).toList := by
  cases color with
  | none => rfl
  | some c =>
      cases hstem : c.stem? with
      | none => simp [layerRules, colorRule?, hstem]
      | some stem => simp [layerRules, colorRule?, hstem]

/-- What has no class comes after all that has, so the order need not be that of the
declarations. -/
theorem declarations_perm (settings : Settings) (s : Style) :
    ((classRules settings s).map Rule.declaration ++ unclassed s).Perm (declared settings s) := by
  set attributes := (attributeRules settings s).map Rule.declaration with hattributes
  set front := (layerRules (· ++ "-fg".toText) .color s.foreground).map Rule.declaration with hfront
  set back := (layerRules (· ++ "-bg".toText) .backgroundColor s.background).map Rule.declaration
    with hback
  set front' := ((s.foreground.filter (·.stem?.isNone)).map Declaration.color).toList
  set back' := ((s.background.filter (·.stem?.isNone)).map Declaration.backgroundColor).toList
  have hdeclared : declared settings s = attributes ++ (front ++ front') ++ (back ++ back') := by
    rw [hfront, hback, map_declaration_layerRules, map_declaration_layerRules, hattributes]
    simp only [attributeRules, List.map_append, apply_ite (List.map Rule.declaration),
      List.map_cons, List.map_nil]
    rfl
  have hclassed : (classRules settings s).map Rule.declaration ++ unclassed s
      = attributes ++ front ++ (back ++ (front' ++ back')) := by
    simp [classRules, unclassed, attributes, front, back, front', back']
  have hinline : declared settings s = attributes ++ front ++ (front' ++ (back ++ back')) := by
    rw [hdeclared]
    simp
  rw [hclassed, hinline]
  exact (List.perm_append_comm_assoc back front' back').append_left _

end Appearance

/-! ### The two ways -/

/-- Text in an element, unless the style is plain. -/
def Block.inStyle (s : Style) (attributes : List Attribute) (shown : Text) : Block :=
  if s = .plain then .bare shown else .span attributes shown

theorem renderText_eq_inStyle (settings : Settings) (s : Style) {chars : Text} (hne : chars ≠ []) :
    renderText settings s chars
      = (Block.inStyle s (attributeList settings s) (written settings chars)).html := by
  by_cases hs : s = .plain
  · subst hs
    exact renderText_plain settings chars
  · rw [Block.inStyle, if_neg hs]
    exact renderText_styled settings hne hs

/--
**Classes say what declarations say.**  For a style that renditions and resets have made
of the plain style, every class that is written has exactly one rule in the style sheet,
whose text is its rules with their selectors and braces, and nothing else.  The
declarations of the rules found, with those that are written beside the classes, are the
declarations that are written when classes are not in use, each as often as there.  In
both cases the same text is written, in an element or not.
-/
theorem classes_agree (settings : Settings) (steps : List Style.Step) {chars : Text}
    (hne : chars ≠ []) :
    let s := Style.plain.run steps
    let inline := { settings with useClasses := false }
    let classed := { settings with useClasses := true }
    let declarations := (Appearance.ofStyle inline s).declarations
    let remaining := (Appearance.ofStyle classed s).declarations
    let classes := (Appearance.ofStyle classed s).classes
    renderText inline s chars
        = (Block.inStyle s
            (listed "style".toText ";".toText (declarations.map Declaration.inline))
            (written settings chars)).html ∧
      renderText classed s chars
        = (Block.inStyle s
            (listed "style".toText ";".toText (remaining.map Declaration.inline) ++
              listed "class".toText " ".toText classes)
            (written settings chars)).html ∧
      stylesheet settings = (Stylesheet.rules settings).flatMap (fun r =>
        ".".toText ++ r.className ++ " \x7b ".toText ++ r.declaration.spaced ++ "; \x7d\n".toText) ∧
      ∃ rules, List.Forall₂ (Stylesheet.IsRuleOf settings) classes rules ∧
        (rules.map Rule.declaration ++ remaining).Perm declarations ∧
        ∀ r ∈ rules, r.declaration.spaced = r.declaration.inline ∨ ∃ property value,
          r.declaration.inline = property ++ ":".toText ++ value ∧
            r.declaration.spaced = property ++ ": ".toText ++ value := by
  intro s inline classed declarations remaining classes
  have hs : s.Genuine := Style.genuine_run Style.genuine_plain steps
  refine ⟨?_, renderText_eq_inStyle classed s hne, rfl, Appearance.classRules settings s,
    ?_, ?_, ?_⟩
  · rw [renderText_eq_inStyle inline s hne, attributeList]
    simp [inline, declarations, Appearance.ofStyle, listed, written]
  · have hclasses : classes = (Appearance.classRules settings s).map Rule.className :=
      (Appearance.map_className_classRules settings s).symm
    rw [hclasses, List.forall₂_map_left_iff, List.forall₂_same]
    exact fun r hr => Stylesheet.isRuleOf_of_mem
      (Appearance.mem_rules_of_mem_classRules settings hs hr)
  · exact Appearance.declarations_perm settings s
  · exact fun r _ => r.declaration.spaced_cases

/-- A colour without a name in front of one with a name: the declarations change their order. -/
theorem classes_agree_mixed :
    let s := Style.plain.run [.rendition "1;38;5;196;44".toText]
    let settings : Settings := { boldStyle := "a: b".toText, useClasses := true }
    let front : Declaration := .color ⟨255, 0, 0, .indexed, none⟩
    let back : Declaration := .backgroundColor (Palette.namedColor "blue" 0 0 187)
    "x".toText ≠ [] ∧
      stylesheet settings = (Stylesheet.rules settings).flatMap (fun r =>
        ".".toText ++ r.className ++ " \x7b ".toText ++ r.declaration.spaced ++ "; \x7d\n".toText) ∧
      ∃ rules, List.Forall₂ (Stylesheet.IsRuleOf settings)
          (Appearance.ofStyle settings s).classes rules ∧
        (rules.map Rule.declaration ++ [front]).Perm [.custom "a: b".toText, front, back] := by
  intro s settings front back
  have hne : "x".toText ≠ [] := List.cons_ne_nil _ _
  obtain ⟨-, -, hsheet, rules, hrules, hperm, -⟩ := classes_agree settings
    [.rendition "1;38;5;196;44".toText] hne
  have hstyle : Style.plain.run [.rendition "1;38;5;196;44".toText] = { Style.plain with
      bold := true
      foreground := some ⟨255, 0, 0, .indexed, none⟩
      background := some (Palette.namedColor "blue" 0 0 187) } := by
    decide +kernel
  rw [hstyle] at hperm
  exact ⟨hne, hsheet, rules, hrules, hperm⟩

end TerminalMarkup.Html
