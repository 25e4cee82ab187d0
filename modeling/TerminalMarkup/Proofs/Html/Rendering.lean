/-
Rendered pieces as blocks.

A block is what the HTML of one piece is, taken apart: text as it stands, text in an
element with attributes, or an anchor.  The attributes of an element come from the
settings and the style alone.  They are missing only when the style is plain, which
is not obvious, for with classes an attribute of the style may be expressed in either
of two places and a colour without a name has no class.
-/
import TerminalMarkup.Html.Render

namespace TerminalMarkup.Html

/-! ### Attributes -/

/-- An attribute of a start tag. -/
structure Attribute where
  name : Text
  value : Text
  deriving DecidableEq, Repr

/-- The attribute with the space before it. -/
def Attribute.html (a : Attribute) : Text :=
  .scalar ' ' :: a.name ++ "=\"".toText ++ a.value ++ "\"".toText

/-- The attribute that lists the items, if there are any. -/
def listed (name separator : Text) (items : List Text) : List Attribute :=
  if items = [] then [] else [⟨name, separator.intercalate items⟩]

/-- The attributes that express a style. -/
def attributeList (settings : Settings) (s : Style) : List Attribute :=
  listed "style".toText ";".toText
      ((Appearance.ofStyle settings s).declarations.map Declaration.inline) ++
    listed "class".toText " ".toText (Appearance.ofStyle settings s).classes

theorem listAttribute_eq (name separator : Text) (items : List Text) :
    Appearance.listAttribute name separator items
      = (listed name separator items).flatMap Attribute.html := by
  unfold Appearance.listAttribute listed
  split
  · rfl
  · simp [Attribute.html]

theorem attributes_eq (settings : Settings) (s : Style) :
    (Appearance.ofStyle settings s).attributes
      = (attributeList settings s).flatMap Attribute.html := by
  unfold Appearance.attributes attributeList
  rw [listAttribute_eq, listAttribute_eq, List.flatMap_append]

theorem listed_eq_nil {name separator : Text} {items : List Text} :
    listed name separator items = [] ↔ items = [] := by
  unfold listed
  split
  · rename_i h
    simp [h]
  · rename_i h
    simp [h]

theorem eq_false_of_item {α : Type} {b : Bool} {item : α}
    (h : (if b then [item] else []) = []) : b = false := by
  cases b with
  | false => rfl
  | true => exact absurd h (List.cons_ne_nil item [])

/-- Only the plain style declares nothing. -/
theorem eq_plain_of_declared {settings : Settings} {s : Style}
    (h : Appearance.declared settings s = []) : s = .plain := by
  obtain ⟨bold, faint, italic, underline, foreground, background⟩ := s
  simp only [Appearance.declared, List.append_eq_nil_iff, Option.toList_eq_nil_iff,
    Option.map_eq_none_iff] at h
  obtain ⟨⟨⟨⟨⟨hbold, hfaint⟩, hitalic⟩, hunderline⟩, rfl⟩, rfl⟩ := h
  rw [eq_false_of_item hbold, eq_false_of_item hfaint, eq_false_of_item hitalic,
    eq_false_of_item hunderline]
  rfl

/-- A colour has a class or is declared. -/
theorem eq_none_of_unclassed {color : Option Color} {f : Text → Text}
    (hclass : color.bind (fun c => c.stem?.map f) = none)
    (hdeclared : color.filter (·.stem?.isNone) = none) : color = none := by
  cases color with
  | none => rfl
  | some c =>
      cases hstem : c.stem? with
      | none => simp [hstem] at hdeclared
      | some stem => simp [hstem] at hclass

/-- Only the plain style has neither classes nor anything that is declared beside them. -/
theorem eq_plain_of_styleClasses {s : Style} (hclasses : Appearance.styleClasses s = [])
    (hunclassed : Appearance.unclassed s = []) : s = .plain := by
  obtain ⟨bold, faint, italic, underline, foreground, background⟩ := s
  simp only [Appearance.styleClasses, List.append_eq_nil_iff, Option.toList_eq_nil_iff] at hclasses
  simp only [Appearance.unclassed, List.append_eq_nil_iff, Option.toList_eq_nil_iff,
    Option.map_eq_none_iff] at hunclassed
  obtain ⟨⟨⟨⟨⟨hbold, hfaint⟩, hitalic⟩, hunderline⟩, hforeground⟩, hbackground⟩ := hclasses
  rw [eq_false_of_item hbold, eq_false_of_item hfaint, eq_false_of_item hitalic,
    eq_false_of_item hunderline, eq_none_of_unclassed hforeground hunclassed.1,
    eq_none_of_unclassed hbackground hunclassed.2]
  rfl

theorem attributeList_ne_nil (settings : Settings) {s : Style} (h : s ≠ .plain) :
    attributeList settings s ≠ [] := by
  intro hnil
  apply h
  simp only [attributeList, List.append_eq_nil_iff, listed_eq_nil, List.map_eq_nil_iff] at hnil
  obtain ⟨hdeclarations, hclasses⟩ := hnil
  unfold Appearance.ofStyle at hdeclarations hclasses
  split at hdeclarations
  · rename_i huse
    rw [if_pos huse] at hclasses
    exact eq_plain_of_styleClasses hclasses hdeclarations
  · exact eq_plain_of_declared hdeclarations

/-! ### Blocks -/

/-- The HTML of one piece. -/
inductive Block where
  | bare (shown : Text)
  | span (attributes : List Attribute) (shown : Text)
  | anchor (address label : Text)
  deriving DecidableEq, Repr

def Block.html : Block → Text
  | .bare shown => shown
  | .span attributes shown =>
    "<span".toText ++ attributes.flatMap Attribute.html ++ ">".toText ++ shown ++ "</span>".toText
  | .anchor address label =>
    "<a href=\"".toText ++ address ++ "\">".toText ++ label ++ "</a>".toText

variable {settings : Settings}

theorem written_append (settings : Settings) (a b : Text) :
    written settings (a ++ b) = written settings a ++ written settings b := by
  unfold written
  split
  · exact escape_append a b
  · rfl

theorem written_eq_escape (h : settings.escapeHtml = true) (t : Text) :
    written settings t = escape t := if_pos h

theorem renderText_plain (settings : Settings) (chars : Text) :
    renderText settings .plain chars = written settings chars := by
  unfold renderText
  split
  · rename_i h
    simp [h, written, escape]
  · rw [if_pos (Style.isPlain_iff.mpr rfl)]

theorem renderText_styled (settings : Settings) {s : Style} {chars : Text} (hne : chars ≠ [])
    (hstyle : s ≠ .plain) :
    renderText settings s chars
      = (Block.span (attributeList settings s) (written settings chars)).html := by
  have hplain : ¬s.isPlain = true := fun h => hstyle (Style.isPlain_iff.mp h)
  rw [renderText, if_neg hne, if_neg hplain, attributes_eq]
  rfl

theorem renderHyperlink_allowed {url : Text} (h : isAllowed settings url = true) (label : Text) :
    renderHyperlink settings url label
      = (Block.anchor (written settings url) (written settings label)).html := if_pos h

end TerminalMarkup.Html
