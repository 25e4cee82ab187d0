/-
Text that was cut is shown in adjacent spans.

`Recut` says where packets may have been cut; what that does to a page is less than one
might think.  A text in the plain style has no element around it, so a cut in it leaves
no trace, and a sequence is never cut at all.  Only a text in an element comes out in
two elements, side by side and with the same attributes.  `Respan` is that and no more,
between the blocks of a page and the blocks of the same page cut up.
-/
import TerminalMarkup.Proofs.Converter.Chunks

namespace TerminalMarkup

open Html

/-! ### Blocks -/

/-- The block of a packet, if it shows anything. -/
def Packet.blocks (settings : Settings) (p : Packet) : List Block :=
  match p.token with
  | .text chars =>
    if chars = [] then []
    else if p.style = .plain then [.bare (written settings chars)]
    else [.span (attributeList settings p.style) (written settings chars)]
  | .hyperlink url label =>
    if isAllowed settings url then [.anchor (written settings url) (written settings label)] else []
  | _ => []

theorem Packet.html_blocks (settings : Settings) (p : Packet) :
    p.html settings = (p.blocks settings).flatMap Block.html := by
  obtain ⟨start, style, t⟩ := p
  cases t with
  | text chars =>
      show renderText settings style chars = _
      unfold Packet.blocks
      dsimp only
      by_cases hchars : chars = []
      · rw [if_pos hchars, renderText, if_pos hchars, List.flatMap_nil]
      rw [if_neg hchars]
      by_cases hstyle : style = .plain
      · rw [if_pos hstyle, hstyle, renderText_plain, List.flatMap_singleton]
        rfl
      · rw [if_neg hstyle, renderText_styled settings hchars hstyle, List.flatMap_singleton]
  | hyperlink url label =>
      show renderHyperlink settings url label = _
      unfold Packet.blocks
      dsimp only
      by_cases hallowed : isAllowed settings url = true
      · rw [if_pos hallowed, renderHyperlink_allowed hallowed, List.flatMap_singleton]
      · rw [if_neg hallowed, renderHyperlink, if_neg hallowed, List.flatMap_nil]
  | strayEscape => rfl
  | rendition params => rfl
  | control params => rfl

theorem html_blocks (settings : Settings) (ps : List Packet) :
    ps.flatMap (Packet.html settings)
      = (ps.flatMap (Packet.blocks settings)).flatMap Block.html := by
  rw [List.flatMap_assoc]
  exact congrArg ps.flatMap (funext (Packet.html_blocks settings))

/-! ### Cutting spans -/

/-- The second list has the blocks of the first, with the text of some elements shown in several
that are alike and side by side. -/
inductive Respan (settings : Settings) : List Block → List Block → Prop
  | nil : Respan settings [] []
  | keep (b : Block) {bs cs : List Block} (h : Respan settings bs cs) :
      Respan settings (b :: bs) (b :: cs)
  | cut (attributes : List Attribute) {front back : Text} {bs cs : List Block} (hfront : front ≠ [])
      (hback : back ≠ [])
      (h : Respan settings (.span attributes (written settings back) :: bs) cs) :
      Respan settings (.span attributes (written settings (front ++ back)) :: bs)
        (.span attributes (written settings front) :: cs)

namespace Respan

variable {settings : Settings}

theorem keep_append (front : List Block) {bs cs : List Block} (h : Respan settings bs cs) :
    Respan settings (front ++ bs) (front ++ cs) := by
  induction front with
  | nil => exact h
  | cons b front ih => exact .keep b ih

/-- Text without an element is not cut. -/
theorem of_bare {shown : Text} {bs cs : List Block} (h : Respan settings (.bare shown :: bs) cs) :
    ∃ rest, cs = .bare shown :: rest ∧ Respan settings bs rest := by
  cases h with
  | keep _ h => exact ⟨_, rfl, h⟩

end Respan

namespace Recut

variable {allowed : Nat → Prop} {ps qs : List Packet}

/-- **Cutting packets cuts spans.**  The induction is on the cutting: a cut in the plain style is
undone by joining what is shown, and any other is a cut of the span. -/
theorem respan (h : Recut allowed ps qs) (settings : Settings) :
    ∃ cs, Respan settings (ps.flatMap (Packet.blocks settings)) cs ∧
      qs.flatMap (Packet.html settings) = cs.flatMap Block.html := by
  induction h with
  | nil => exact ⟨[], .nil, rfl⟩
  | keep p _ ih =>
      obtain ⟨cs, hspan, hhtml⟩ := ih
      refine ⟨p.blocks settings ++ cs, hspan.keep_append _, ?_⟩
      rw [List.flatMap_cons, List.flatMap_append, hhtml, Packet.html_blocks]
  | @cut start style a b ps qs ha hb hplace _ ih =>
      obtain ⟨cs, hspan, hhtml⟩ := ih
      have hab : a ++ b ≠ [] := List.append_ne_nil_of_left_ne_nil ha b
      by_cases hstyle : style = .plain
      · subst hstyle
        simp only [List.flatMap_cons, Packet.blocks, if_neg hb, if_neg hab, if_true,
          List.singleton_append] at hspan ⊢
        obtain ⟨rest, rfl, hrest⟩ := hspan.of_bare
        refine ⟨.bare (written settings (a ++ b)) :: rest, .keep _ hrest, ?_⟩
        show renderText settings .plain a ++ _ = _
        rw [hhtml, renderText_plain, written_append, List.flatMap_cons, List.flatMap_cons]
        exact (List.append_assoc ..).symm
      · simp only [List.flatMap_cons, Packet.blocks, if_neg hb, if_neg hab, if_neg hstyle,
          List.singleton_append] at hspan ⊢
        refine ⟨.span (attributeList settings style) (written settings a) :: cs,
          .cut _ ha hb hspan, ?_⟩
        show renderText settings style a ++ _ = _
        rw [hhtml, renderText_styled settings ha hstyle, List.flatMap_cons]

/-- Sequences are left whole, in place and in their style. -/
theorem filter_eq (h : Recut allowed ps qs) {f : Packet → Bool}
    (hf : ∀ start style chars, f ⟨start, style, .text chars⟩ = false) :
    qs.filter f = ps.filter f := by
  induction h with
  | nil => rfl
  | keep p _ ih => rw [List.filter_cons, List.filter_cons, ih]
  | @cut start style a b ps qs ha hb hplace _ ih =>
      rw [List.filter_cons_of_neg (by simp [hf]), ih, List.filter_cons_of_neg (by simp [hf]),
        List.filter_cons_of_neg (by simp [hf])]

end Recut

end TerminalMarkup
