/-
Where the parts of a page are.

A page is written by putting its parts one after another, and what it is made of comes from
outside: anyone may choose a title, and the body is HTML that is not looked at again.  That
the parts can still be found rests on two things.  A title is escaped, so no tag begins in
it, and the tags around it are the first of their kind (`between_title_iff`).  And nothing
that stands after the body depends on anything, so the tag that closes it is the last of its
kind, whatever the body has in it (`lastAt_preEnd`).

A place in a text is given by what stands in front of it, or behind it.
-/
import Mathlib.Data.List.Infix
import TerminalMarkup.Html.Page
import TerminalMarkup.Proofs.Html.Escaping

namespace TerminalMarkup

namespace Text

/-! ### Places of words -/

/-- A word stands in a text after a front part, and nowhere sooner. -/
structure FirstAt (word front t : Text) : Prop where
  stands : front ++ word <+: t
  first : ∀ sooner, sooner ++ word <+: t → front.length ≤ sooner.length

/-- A word stands in a text before a back part, and nowhere later. -/
structure LastAt (word back t : Text) : Prop where
  stands : word ++ back <:+ t
  last : ∀ later, word ++ later <:+ t → back.length ≤ later.length

/-- The text between the first place of one word and the first place of another. -/
def Between (opening closing inner t : Text) : Prop :=
  ∃ front, FirstAt opening front t ∧ FirstAt closing (front ++ opening ++ inner) t

/-- A word begins nowhere in a text, whatever comes after the text. -/
def BeginsNowhere (word t : Text) : Prop :=
  ∀ s ∈ t.tails, s ≠ [] → ¬s <+: word ∧ ¬word <+: s

instance (word t : Text) : Decidable (BeginsNowhere word t) :=
  inferInstanceAs (Decidable (∀ s ∈ t.tails, s ≠ [] → ¬s <+: word ∧ ¬word <+: s))

variable {word front t : Text}

theorem FirstAt.eq {front' : Text} (h : FirstAt word front t) (h' : FirstAt word front' t) :
    front = front' := by
  have hlength : front.length = front'.length :=
    Nat.le_antisymm (h.first front' h'.stands) (h'.first front h.stands)
  have hprefix : front <+: t := (List.prefix_append front word).trans h.stands
  have hprefix' : front' <+: t := (List.prefix_append front' word).trans h'.stands
  exact (List.prefix_of_prefix_length_le hprefix hprefix' hlength.le).eq_of_length hlength

theorem beginsNowhere_cons_iff {c : CodePoint} : BeginsNowhere word (c :: t) ↔
    (¬c :: t <+: word ∧ ¬word <+: c :: t) ∧ BeginsNowhere word t := by
  simp [BeginsNowhere]

/-- A word begins nowhere in a text that does not have its first character. -/
theorem beginsNowhere_of_not_mem {c : CodePoint} (h : c ∉ t) : BeginsNowhere (c :: word) t := by
  induction t with
  | nil => exact fun s hs hne => absurd (List.mem_singleton.mp hs) hne
  | cons d t ih =>
      obtain ⟨hdc, ht⟩ := not_or.mp (List.mem_cons.not.mp h)
      exact beginsNowhere_cons_iff.mpr
        ⟨⟨fun hprefix => hdc (List.cons_prefix_cons.mp hprefix).1.symm,
          fun hprefix => hdc (List.cons_prefix_cons.mp hprefix).1⟩, ih ht⟩

/-- What comes after a text makes no difference to where a word begins in the text. -/
theorem not_prefix_append {more : Text} (h : ¬t <+: word ∧ ¬word <+: t) :
    ¬t ++ more <+: word ∧ ¬word <+: t ++ more := by
  have hfront : t <+: t ++ more := List.prefix_append t more
  refine ⟨fun hshort => h.1 (hfront.trans hshort), fun hlong => ?_⟩
  rcases List.prefix_or_prefix_of_prefix hlong hfront with h' | h'
  · exact h.2 h'
  · exact h.1 h'

theorem BeginsNowhere.append {more : Text} (h : BeginsNowhere word t)
    (hmore : BeginsNowhere word more) : BeginsNowhere word (t ++ more) := by
  induction t with
  | nil => exact hmore
  | cons c t ih =>
      obtain ⟨hc, ht⟩ := beginsNowhere_cons_iff.mp h
      exact beginsNowhere_cons_iff.mpr ⟨not_prefix_append hc, ih ht⟩

/-- The first place of a word is after a text in which it begins nowhere. -/
theorem firstAt_append (h : BeginsNowhere word front) (t : Text) :
    FirstAt word front (front ++ word ++ t) := by
  refine ⟨List.prefix_append _ t, ?_⟩
  rw [List.append_assoc]
  induction front with
  | nil => exact fun sooner _ => Nat.zero_le sooner.length
  | cons c front ih =>
      obtain ⟨hc, hfront⟩ := beginsNowhere_cons_iff.mp h
      intro sooner hsooner
      cases sooner with
      | nil => exact absurd hsooner (not_prefix_append hc).2
      | cons d sooner =>
          obtain ⟨-, hrest⟩ := List.cons_prefix_cons.mp hsooner
          exact Nat.succ_le_succ (ih hfront sooner hrest)

/-- The last place of a word is settled by what stands behind it. -/
theorem lastAt_append {back : Text}
    (h : ∀ later ∈ (word ++ back).tails, word <+: later → later = word ++ back) (t : Text) :
    LastAt word back (t ++ (word ++ back)) := by
  refine ⟨List.suffix_append t _, fun later hlater => ?_⟩
  by_contra hshorter
  have hle : (word ++ later).length ≤ (word ++ back).length := by
    rw [List.length_append, List.length_append]
    omega
  have hwithin : word ++ later <:+ word ++ back :=
    List.suffix_of_suffix_length_le hlater (List.suffix_append t _) hle
  have heq := h _ ((List.mem_tails _ _).mpr hwithin) (List.prefix_append word later)
  exact hshorter (congrArg List.length (List.append_cancel_left heq)).ge

end Text

namespace Html.Page

/-! ### The frame -/

def titleStart : Text := "<title>".toText
def titleEnd : Text := "</title>".toText
def preStart : Text := "<pre>".toText
def preEnd : Text := "</pre>".toText

/-- What stands before the title. -/
def front : Text := "<!DOCTYPE html>\n<html>\n<head>\n<meta charset=\"utf-8\">\n".toText

/-- What stands between the title and the body. -/
def middle (css : Text) : Text := .scalar '\n' :: styleElement css ++ "</head>\n<body>\n".toText

/-- What stands after the body. -/
def back : Text := "\n</body>\n</html>\n".toText

variable (title css body : Text)

theorem render_eq : render ⟨title, css, body⟩ =
    front ++ titleStart ++ escape title ++ titleEnd ++ middle css ++ preStart ++ body
      ++ preEnd ++ back := by
  have hopening : opening = front ++ titleStart := rfl
  have htitle : "</title>\n".toText = titleEnd ++ [.scalar '\n'] := rfl
  have hhead : "</head>\n<body>\n<pre>".toText = "</head>\n<body>\n".toText ++ preStart := rfl
  have hback : "</pre>\n</body>\n</html>\n".toText = preEnd ++ back := rfl
  rw [render, hopening, htitle, hhead, hback, middle]
  simp only [List.append_assoc, List.cons_append, List.nil_append]

/-! ### The title -/

theorem lt_not_mem_escape : ('<' : CodePoint) ∉ escape title := fun h => (mem_escape h).1.1 rfl

theorem gt_not_mem_escape : ('>' : CodePoint) ∉ escape title := fun h => (mem_escape h).1.2.1 rfl

theorem firstAt_titleStart : Text.FirstAt titleStart front (render ⟨title, css, body⟩) := by
  have hfront : Text.BeginsNowhere titleStart front := by decide
  rw [render_eq]
  simpa only [List.append_assoc] using Text.firstAt_append hfront _

/-- No tag begins in a title, and those before it are of other kinds. -/
theorem firstAt_titleEnd :
    Text.FirstAt titleEnd (front ++ titleStart ++ escape title) (render ⟨title, css, body⟩) := by
  have hfront : Text.BeginsNowhere titleEnd (front ++ titleStart) := by decide
  have htitle : Text.BeginsNowhere titleEnd (escape title) :=
    Text.beginsNowhere_of_not_mem (lt_not_mem_escape title)
  rw [render_eq]
  simpa only [List.append_assoc] using Text.firstAt_append (hfront.append htitle) _

/-- Only the title, as it is written, is between the first tags around a title. -/
theorem between_title_iff {inner : Text} :
    Text.Between titleStart titleEnd inner (render ⟨title, css, body⟩) ↔ inner = escape title := by
  constructor
  · rintro ⟨front', hstart, hend⟩
    obtain rfl := hstart.eq (firstAt_titleStart title css body)
    exact List.append_cancel_left (hend.eq (firstAt_titleEnd title css body))
  · rintro rfl
    exact ⟨front, firstAt_titleStart title css body, firstAt_titleEnd title css body⟩

/-! ### The body -/

theorem lastAt_preEnd : Text.LastAt preEnd back (render ⟨title, css, body⟩) := by
  rw [render_eq, List.append_assoc _ preEnd back]
  exact Text.lastAt_append (by decide) _

theorem beginsNowhere_middle {css : Text} (h : ('<' : CodePoint) ∉ css) :
    Text.BeginsNowhere preStart (middle css) := by
  have hstyle : Text.BeginsNowhere preStart (styleElement css) := by
    unfold styleElement
    split
    · exact Text.beginsNowhere_of_not_mem List.not_mem_nil
    · have hopening : Text.BeginsNowhere preStart "<style>\n".toText := by decide
      have hcss : Text.BeginsNowhere preStart css := Text.beginsNowhere_of_not_mem h
      exact (hopening.append hcss).append (by decide)
  have hline : Text.BeginsNowhere preStart "\n".toText := by decide
  exact (hline.append hstyle).append (by decide)

/-- The tag before the body is the first of its kind, if there are no tags in the style sheet. -/
theorem firstAt_preStart {css : Text} (h : ('<' : CodePoint) ∉ css) :
    Text.FirstAt preStart (front ++ titleStart ++ escape title ++ titleEnd ++ middle css)
      (render ⟨title, css, body⟩) := by
  have hfront : Text.BeginsNowhere preStart (front ++ titleStart) := by decide
  have htitle : Text.BeginsNowhere preStart (escape title) :=
    Text.beginsNowhere_of_not_mem (lt_not_mem_escape title)
  have htitleEnd : Text.BeginsNowhere preStart titleEnd := by decide
  have hhead := ((hfront.append htitle).append htitleEnd).append (beginsNowhere_middle h)
  rw [render_eq]
  simpa only [List.append_assoc] using Text.firstAt_append hhead _

/-- The same style sheet given, a page is read in one way only. -/
theorem eq_of_render_eq {title title' css body body' : Text}
    (h : render ⟨title, css, body⟩ = render ⟨title', css, body'⟩) :
    title = title' ∧ body = body' := by
  have htitle : title = title' := by
    have hbetween := (between_title_iff title css body).mpr rfl
    rw [h, between_title_iff] at hbetween
    rw [← unescape_escape title, hbetween, unescape_escape]
  subst htitle
  rw [render_eq, render_eq] at h
  exact ⟨rfl, List.append_cancel_left
    (List.append_cancel_right (List.append_cancel_right h))⟩

end Html.Page

end TerminalMarkup
