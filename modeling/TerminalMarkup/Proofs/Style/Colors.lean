/-
The colours that a style can come to have.

A class name stands for a colour.  That is sound only if a colour with a name is one
of the palette's named entries, channels and all, for these are what the style sheet
has rules for.  The type of colours does not say so; a style that is made by renditions
and resets has no other colours, because each edit brings none but palette entries and
colours given by their channels, and the latter have no names.

`Genuine` is that invariant.  It is not proved by itself: whatever holds of the entries
of the palette and of the colours given by octets holds of all that a parameter string
brings (`brings_of_mem_fieldEdits`), and so of the colours of every style that renditions
and resets make (`wears_run`).
-/
import TerminalMarkup.Sgr

namespace TerminalMarkup

/-! ### Colours -/

/-- Only the named entries of the palette are named. -/
def Color.Genuine (c : Color) : Prop := ∀ stem ∈ c.stem?, c ∈ Palette.named

namespace Palette

theorem indexed_of_mem_cube {c : Color} (h : c ∈ cube) :
    c.category = .indexed ∧ c.name = none := by
  simp only [cube, List.mem_flatMap, List.mem_map] at h
  obtain ⟨red, -, green, -, blue, -, rfl⟩ := h
  exact ⟨rfl, rfl⟩

theorem indexed_of_mem_greys {c : Color} (h : c ∈ greys) :
    c.category = .indexed ∧ c.name = none := by
  simp only [greys, List.mem_map] at h
  obtain ⟨k, -, rfl⟩ := h
  exact ⟨rfl, rfl⟩

theorem genuine_color (i : Fin 256) : (color i).Genuine := by
  intro stem hstem
  have hmem : color i ∈ named ++ cube ++ greys := List.get_mem colors _
  rcases List.mem_append.mp hmem with hmem | hgrey
  · rcases List.mem_append.mp hmem with hnamed | hcube
    · exact hnamed
    · simp [Color.stem?, Color.isNamed, (indexed_of_mem_cube hcube).1] at hstem
  · simp [Color.stem?, Color.isNamed, (indexed_of_mem_greys hgrey).1] at hstem

end Palette

/-! ### Colours that are brought in

A style has no colours but those that edits bring, and these are entries of the palette
or colours given by octets.  Whatever holds of both kinds is kept by every change.
-/

variable {P : Color → Prop}

namespace Sgr

/-- The edit brings no colour, or one of which `P` holds. -/
def Edit.Brings (P : Color → Prop) : Edit → Prop
  | .foreground c => ∀ color ∈ c, P color
  | .background c => ∀ color ∈ c, P color
  | _ => True

/-- The code is no edit, or one that brings no colour but those of which `P` holds. -/
def Code.Brings (P : Color → Prop) : Code → Prop
  | .edit e => e.Brings P
  | _ => True

theorem Code.brings_ofInt (hpalette : ∀ i, P (Palette.color i)) (n : Int) :
    (Code.ofInt n).Brings P := by
  unfold Code.ofInt
  repeat' split
  -- The codes that bring a colour are those of the sixteen named ones.
  all_goals simp [Code.Brings, Edit.Brings, Palette.normal, Palette.bright, hpalette]

theorem Code.brings_ofField (hpalette : ∀ i, P (Palette.color i)) (field : Text) :
    (Code.ofField field).Brings P := by
  unfold Code.ofField
  split
  · trivial
  · exact brings_ofInt hpalette _

theorem of_mem_paletteColor? (hpalette : ∀ i, P (Palette.color i)) {index : Text} {c : Color}
    (h : c ∈ paletteColor? index) : P c := by
  simp only [paletteColor?, Option.mem_def, Option.map_eq_some_iff] at h
  obtain ⟨i, -, rfl⟩ := h
  exact hpalette i

theorem of_mem_directColor? (hdirect : ∀ r g b : Fin 256, P ⟨r, g, b, .direct, none⟩)
    {red green blue : Text} {c : Color} (h : c ∈ directColor? red green blue) : P c := by
  unfold directColor? at h
  split at h
  · rename_i r g b _ _ _
    simp only [Option.mem_def, Option.some.injEq] at h
    rw [← h]
    exact hdirect r g b
  · simp at h

theorem brings_of_mem_colorEdits {layer : Layer} {color : Option Color}
    (hcolor : ∀ c ∈ color, P c) : ∀ e ∈ colorEdits layer color, e.Brings P := by
  intro e he
  simp only [colorEdits, Option.mem_toList, Option.map_eq_some_iff] at he
  obtain ⟨c, hc, rfl⟩ := he
  cases layer <;> simpa [Layer.edit, Edit.Brings] using hcolor c hc

/-- The induction is along the reading of the fields. -/
theorem brings_of_mem_fieldEdits (hpalette : ∀ i, P (Palette.color i))
    (hdirect : ∀ r g b : Fin 256, P ⟨r, g, b, .direct, none⟩) (fs : List Text) :
    ∀ e ∈ fieldEdits fs, e.Brings P := by
  fun_induction fieldEdits fs with
  | case1 => simp
  | case2 field rest hcode ih => exact ih
  | case3 field rest e hcode ih =>
      intro e' he'
      rcases List.mem_cons.mp he' with rfl | he'
      · have hbrings := Code.brings_ofField hpalette field
        rwa [hcode] at hbrings
      · exact ih e' he'
  | case4 => simp
  | case5 => simp
  | case6 field layer hcode index rest ih =>
      intro e he
      rcases List.mem_append.mp he with he | he
      · exact brings_of_mem_colorEdits (fun c => of_mem_paletteColor? hpalette) e he
      · exact ih e he
  | case7 field layer hcode hmode red green blue rest ih =>
      intro e he
      rcases List.mem_append.mp he with he | he
      · exact brings_of_mem_colorEdits (fun c => of_mem_directColor? hdirect) e he
      · exact ih e he
  | case8 => assumption
  | case9 => assumption

end Sgr

namespace Style

/-! ### Styles -/

/-- `P` holds of the colours of the style. -/
structure Wears (P : Color → Prop) (s : Style) : Prop where
  foreground : ∀ c ∈ s.foreground, P c
  background : ∀ c ∈ s.background, P c

theorem wears_plain : Wears P .plain := ⟨by simp [plain], by simp [plain]⟩

theorem wears_edit {s : Style} (hs : s.Wears P) {e : Sgr.Edit} (he : e.Brings P) :
    (e.apply s).Wears P := by
  cases e with
  | reset => exact wears_plain
  | foreground c => exact ⟨he, hs.background⟩
  | background c => exact ⟨hs.foreground, he⟩
  | bold on => exact ⟨hs.foreground, hs.background⟩
  | faint => exact ⟨hs.foreground, hs.background⟩
  | italic on => exact ⟨hs.foreground, hs.background⟩
  | underline on => exact ⟨hs.foreground, hs.background⟩
  | normalIntensity => exact ⟨hs.foreground, hs.background⟩

theorem wears_applyEdits {es : List Sgr.Edit} (hes : ∀ e ∈ es, e.Brings P) {s : Style}
    (hs : s.Wears P) : (Sgr.applyEdits es s).Wears P := by
  unfold Sgr.applyEdits
  induction es generalizing s with
  | nil => exact hs
  | cons e es ih =>
      exact ih (fun e' he' => hes e' (by simp [he'])) (wears_edit hs (hes e (by simp)))

theorem wears_step (hpalette : ∀ i, P (Palette.color i))
    (hdirect : ∀ r g b : Fin 256, P ⟨r, g, b, .direct, none⟩) {s : Style} (hs : s.Wears P)
    (change : Step) : (s.step change).Wears P := by
  cases change with
  | rendition params =>
      exact wears_applyEdits (Sgr.brings_of_mem_fieldEdits hpalette hdirect _) hs
  | reset => exact wears_plain

/-- **What holds of every colour that a change can bring holds of the colours of a style,** however
many changes it has gone through. -/
theorem wears_run (hpalette : ∀ i, P (Palette.color i))
    (hdirect : ∀ r g b : Fin 256, P ⟨r, g, b, .direct, none⟩) {s : Style} (hs : s.Wears P)
    (steps : List Step) : (s.run steps).Wears P := by
  unfold run
  induction steps generalizing s with
  | nil => exact hs
  | cons change rest ih => exact ih (wears_step hpalette hdirect hs change)

/-- The colours of the style are genuine. -/
structure Genuine (s : Style) : Prop where
  foreground : ∀ c ∈ s.foreground, c.Genuine
  background : ∀ c ∈ s.background, c.Genuine

theorem genuine_plain : Genuine .plain := ⟨by simp [plain], by simp [plain]⟩

/-- **Whatever changes a style has gone through, its colours are genuine.** -/
theorem genuine_run {s : Style} (hs : s.Genuine) (steps : List Step) : (s.run steps).Genuine := by
  have hdirect : ∀ r g b : Fin 256, Color.Genuine ⟨r, g, b, .direct, none⟩ := by
    intro r g b
    simp [Color.Genuine, Color.stem?, Color.isNamed]
  have hwears := wears_run Palette.genuine_color hdirect ⟨hs.foreground, hs.background⟩ steps
  exact ⟨hwears.foreground, hwears.background⟩

end Style

end TerminalMarkup
