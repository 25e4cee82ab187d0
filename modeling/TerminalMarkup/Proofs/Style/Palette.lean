/-
The colours of a style are in the palette, or are given by octets.

Whatever strings it is changed by, a style gets its colours in two ways only.  An entry
of the palette comes with its channels and, if it is one of the sixteen, with its name.
A colour given by its channels has no name, and its channels are octets because nothing
else is accepted for them.  The type of colours admits others: a named colour without a
name, a name with the wrong channels, or a name that nobody has.  `IsSound` says that a
colour is none of those.

The changes are made under a cursor here, so that a look-up that fails would be seen.
-/
import Mathlib.Data.List.Nodup
import TerminalMarkup.Proofs.Style.Colors
import TerminalMarkup.Proofs.Style.Cursor

namespace TerminalMarkup

/-- What a colour that comes from the palette or from octets can be told by. -/
structure Color.IsSound (c : Color) : Prop where
  /-- It is an entry of the palette, or has octets for channels and no name. -/
  source : (∃ i, c = Palette.color i) ∨
    (c.category = .direct ∧ c.name = none ∧ c.red ≤ 255 ∧ c.green ≤ 255 ∧ c.blue ≤ 255)
  /-- It has a name exactly when it is one of the named colours. -/
  wellFormed : c.WellFormed
  /-- It is one of the named colours exactly when it has one of the sixteen names. -/
  named_iff : c.category = .named ↔ ∃ p ∈ Palette.named, c.name = p.name
  /-- It is then the entry of that name, the only one in the palette. -/
  entry : c.category = .named →
    c ∈ Palette.named ∧ ∀ p ∈ Palette.colors, p.name = c.name → p = c

namespace Palette

/-- The sixteen entries are named, and have names. -/
theorem wellFormed_of_mem_named : ∀ p ∈ named, p.category = .named ∧ p.WellFormed := by decide

theorem name_ne_none_of_mem_named : ∀ p ∈ named, p.name ≠ none := by decide

theorem nodup_name : (named.map Color.name).Nodup := by decide +kernel

theorem eq_of_name_eq {c p : Color} (hc : c ∈ named) (hp : p ∈ named) (h : p.name = c.name) :
    p = c :=
  List.inj_on_of_nodup_map nodup_name hp hc h

/-- The rest of the palette has no names. -/
theorem mem_named_or_indexed {p : Color} (hp : p ∈ colors) :
    p ∈ named ∨ p.category = .indexed ∧ p.name = none := by
  rcases List.mem_append.mp hp with hp | hgrey
  · rcases List.mem_append.mp hp with hnamed | hcube
    · exact Or.inl hnamed
    · exact Or.inr (indexed_of_mem_cube hcube)
  · exact Or.inr (indexed_of_mem_greys hgrey)

end Palette

/-- A colour that is not named and has no name is sound as soon as it comes from the right place. -/
theorem Color.isSound_of_unnamed {c : Color} (hcategory : c.category ≠ .named)
    (hname : c.name = none)
    (hsource : (∃ i, c = Palette.color i) ∨
      (c.category = .direct ∧ c.name = none ∧ c.red ≤ 255 ∧ c.green ≤ 255 ∧ c.blue ≤ 255)) :
    c.IsSound := by
  have hwell : c.WellFormed := by simp [WellFormed, isNamed, hcategory, hname]
  refine ⟨hsource, hwell, ⟨fun h => absurd h hcategory, ?_⟩, fun h => absurd h hcategory⟩
  rintro ⟨p, hp, hsame⟩
  exact absurd (hsame.symm.trans hname) (Palette.name_ne_none_of_mem_named p hp)

theorem Palette.isSound_color (i : Fin 256) : (color i).IsSound := by
  rcases mem_named_or_indexed (List.get_mem colors _ : color i ∈ colors) with
    hnamed | ⟨hindexed, hname⟩
  · obtain ⟨hcategory, hwell⟩ := wellFormed_of_mem_named _ hnamed
    refine ⟨Or.inl ⟨i, rfl⟩, hwell, ⟨fun _ => ⟨color i, hnamed, rfl⟩, fun _ => hcategory⟩, ?_⟩
    intro _
    refine ⟨hnamed, ?_⟩
    intro p hp hsame
    rcases mem_named_or_indexed hp with hpNamed | ⟨-, hpName⟩
    · exact eq_of_name_eq hnamed hpNamed hsame
    · exact absurd (hsame.symm.trans hpName) (name_ne_none_of_mem_named _ hnamed)
  · have hcategory : (color i).category ≠ .named := fun h =>
      Color.Category.noConfusion (h.symm.trans hindexed)
    exact Color.isSound_of_unnamed hcategory hname (Or.inl ⟨i, rfl⟩)

theorem Color.isSound_direct (r g b : Fin 256) : Color.IsSound ⟨r, g, b, .direct, none⟩ := by
  have hoctet : ∀ k : Fin 256, k.val ≤ 255 := fun k => Nat.le_of_lt_succ k.isLt
  exact isSound_of_unnamed (by simp) rfl (Or.inr ⟨rfl, rfl, hoctet r, hoctet g, hoctet b⟩)

namespace Style

/-- No change breaks off. -/
theorem attempt_eq (s : Style) (steps : List Step) : s.attempt steps = .ok (s.run steps) := by
  induction steps generalizing s with
  | nil => rfl
  | cons change rest ih =>
      cases change with
      | rendition params =>
          rw [attempt, Sgr.Cursor.apply_start]
          exact ih (Sgr.apply params s)
      | reset => exact ih .plain

/--
**Whatever strings a style is changed by, its colours are sound,** and every colour that is looked
up on the way is there.
-/
theorem attempt_sound (steps : List Step) :
    ∃ s, attempt .plain steps = .ok s ∧ s = Style.plain.run steps ∧
      (∀ c ∈ s.foreground, c.IsSound) ∧ ∀ c ∈ s.background, c.IsSound := by
  have hwears : (Style.plain.run steps).Wears Color.IsSound :=
    wears_run Palette.isSound_color Color.isSound_direct wears_plain steps
  exact ⟨_, attempt_eq .plain steps, rfl, hwears.foreground, hwears.background⟩

end Style

end TerminalMarkup
