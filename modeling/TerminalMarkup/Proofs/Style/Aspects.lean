/-
What a parameter string does to a style, one aspect at a time.

A style has six aspects, four attributes and two colours.  An edit either writes an aspect,
and then what it writes does not depend on the style, or it leaves it alone (`get_edit`).
Of several edits the last one that writes an aspect decides (`get_applyEdits`).  Which edits a
string makes does not depend on the style either, and so a string, too, either sets an
aspect to one value or keeps what is there.

The rest follows without looking at strings again.  What is set stays set when it is set once
more, so a string that is applied twice does what it does once; and a reset writes all
aspects, so behind one nothing is left of the style there was.
-/
import TerminalMarkup.Proofs.Style.Codes

namespace TerminalMarkup

namespace Style

/-! ### Aspects -/

/-- The six things that make up a style. -/
inductive Aspect where
  | bold
  | faint
  | italic
  | underline
  | foreground
  | background
  deriving DecidableEq, Repr

/-- What an aspect can be. -/
@[reducible]
def Aspect.Value : Aspect → Type
  | .bold | .faint | .italic | .underline => Bool
  | .foreground | .background => Option Color

/-- What an aspect of the style is. -/
def get (s : Style) : (a : Aspect) → a.Value
  | .bold => s.bold
  | .faint => s.faint
  | .italic => s.italic
  | .underline => s.underline
  | .foreground => s.foreground
  | .background => s.background

theorem eq_of_get_eq {s t : Style} (h : ∀ a, s.get a = t.get a) : s = t := by
  obtain ⟨bold, faint, italic, underline, foreground, background⟩ := s
  have hbold := h .bold
  have hfaint := h .faint
  have hitalic := h .italic
  have hunderline := h .underline
  have hforeground := h .foreground
  have hbackground := h .background
  simp only [get] at hbold hfaint hitalic hunderline hforeground hbackground
  rw [hbold, hfaint, hitalic, hunderline, hforeground, hbackground]

end Style

namespace Sgr

open Style (Aspect)

/-! ### What is written -/

/-- What an edit writes to an aspect, if it writes it. -/
def Edit.value? : Edit → (a : Aspect) → Option a.Value
  | .reset, a => some (Style.plain.get a)
  | .bold on, .bold => some on
  | .faint, .faint => some true
  | .italic on, .italic => some on
  | .underline on, .underline => some on
  | .normalIntensity, .bold => some false
  | .normalIntensity, .faint => some false
  | .foreground c, .foreground => some c
  | .background c, .background => some c
  | _, _ => none

/-- What the last of the edits that write an aspect writes to it. -/
def lastValue? : List Edit → (a : Aspect) → Option a.Value
  | [], _ => none
  | e :: es, a => (lastValue? es a).or (e.value? a)

theorem get_edit (e : Edit) (s : Style) (a : Aspect) :
    (e.apply s).get a = (e.value? a).getD (s.get a) := by
  cases e <;> cases a <;> rfl

/-- **Of edits in turn the last one that writes an aspect decides.** -/
theorem get_applyEdits (es : List Edit) (s : Style) (a : Aspect) :
    (applyEdits es s).get a = (lastValue? es a).getD (s.get a) := by
  induction es generalizing s with
  | nil => rfl
  | cons e es ih =>
      have hrest : (applyEdits (e :: es) s).get a = (lastValue? es a).getD ((e.apply s).get a) :=
        ih (e.apply s)
      rw [hrest, get_edit, lastValue?]
      cases lastValue? es a with
      | none => rfl
      | some v => rfl

theorem get_apply (params : Text) (s : Style) (a : Aspect) :
    (apply params s).get a = (lastValue? (edits params) a).getD (s.get a) :=
  get_applyEdits (edits params) s a

/-- A string either keeps an aspect of every style or sets it to the same in every style. -/
theorem keeps_or_sets (params : Text) (a : Aspect) :
    (∀ s, (apply params s).get a = s.get a) ∨ ∃ v, ∀ s, (apply params s).get a = v := by
  cases hvalue : lastValue? (edits params) a with
  | none =>
      left
      intro s
      rw [get_apply, hvalue, Option.getD_none]
  | some v =>
      right
      refine ⟨v, fun s => ?_⟩
      rw [get_apply, hvalue, Option.getD_some]

theorem apply_apply (params : Text) (s : Style) :
    apply params (apply params s) = apply params s := by
  refine Style.eq_of_get_eq fun a => ?_
  rcases keeps_or_sets params a with hkeeps | ⟨v, hsets⟩
  · exact hkeeps (apply params s)
  · rw [hsets, hsets]

/-! ### Behind a reset -/

variable {field : Text} {fs : List Text} {es : List Edit}

theorem Code.ofField_eq_reset
    (h : field = [] ∨ Numeral.readInt? field = none ∨ Numeral.readInt? field = some 0) :
    ofField field = .edit .reset := by
  rcases h with rfl | hnone | hzero
  · rfl
  · simp [ofField, hnone]
  · simp [ofField, hzero, ofInt]

theorem Turn.edits_eq {e : Edit} {rest : List Text} (h : Turn field fs es rest)
    (hcode : Code.ofField field = .edit e) : es = [e] := by
  cases h with
  | edit hedit =>
      rw [hcode] at hedit
      cases hedit
      rfl
  | unknown hother | noMode hother | noIndex hother | index hother | channels hother
  | noChannels hother | otherMode hother =>
      rw [hcode] at hother
      cases hother

/-- The edit of a code is among the edits of the string. -/
theorem mem_fieldEdits_of_mem_codes {e : Edit} (hcode : Code.ofField field = .edit e)
    {behind : List Text} (h : (field, behind) ∈ (Cursor.before fs).codes) : e ∈ fieldEdits fs := by
  induction fs using turn_induction with
  | nil => simp [Cursor.codes_nil] at h
  | turn hturn ih =>
      rw [hturn.codes_eq, List.mem_cons, Prod.mk.injEq] at h
      rw [hturn.fieldEdits_eq, List.mem_append]
      rcases h with ⟨rfl, rfl⟩ | hrest
      · rw [hturn.edits_eq hcode]
        exact Or.inl List.mem_cons_self
      · exact Or.inr (ih hrest)

theorem applyEdits_eq_of_reset (h : .reset ∈ es) (s t : Style) :
    applyEdits es s = applyEdits es t := by
  obtain ⟨front, back, rfl⟩ := List.append_of_mem h
  rw [Cursor.applyEdits_append, Cursor.applyEdits_append]
  rfl

end Sgr

namespace Style

/--
**A parameter string keeps or sets each aspect of the style.**  So twice is once; and with a code
that is 0, empty or no numeral, the style that comes out is the same for all that go in.
-/
theorem attempt_keeps_or_sets (params : Text) :
    (∀ s, attempt s [.rendition params] = .ok (Sgr.apply params s)) ∧
    (∀ a, (∀ s, (Sgr.apply params s).get a = s.get a) ∨ ∃ v, ∀ s, (Sgr.apply params s).get a = v) ∧
    (∀ s, attempt s [.rendition params, .rendition params] = attempt s [.rendition params]) ∧
    ∀ code behind, (code, behind) ∈ (Sgr.Cursor.start params).codes →
      (code = [] ∨ Numeral.readInt? code = none ∨ Numeral.readInt? code = some 0) →
      ∀ s t, attempt s [.rendition params] = attempt t [.rendition params] := by
  refine ⟨fun s => attempt_eq s _, Sgr.keeps_or_sets params, fun s => ?_, ?_⟩
  · rw [attempt_eq, attempt_eq]
    exact congrArg Except.ok (Sgr.apply_apply params s)
  · intro code behind hmem hreset s t
    rw [Sgr.Cursor.start_eq] at hmem
    have hedit := Sgr.mem_fieldEdits_of_mem_codes (Sgr.Code.ofField_eq_reset hreset) hmem
    rw [attempt_eq, attempt_eq]
    exact congrArg Except.ok (Sgr.applyEdits_eq_of_reset hedit s t)

/-- Behind an empty code nothing is left of a colour. -/
theorem attempt_empty_code :
    ([], ["4".toText]) ∈ (Sgr.Cursor.start "1;;4".toText).codes ∧
      attempt { foreground := some (Palette.color 1) } [.rendition "1;;4".toText] =
        attempt .plain [.rendition "1;;4".toText] := by
  have hmem : ([], ["4".toText]) ∈ (Sgr.Cursor.start "1;;4".toText).codes := by decide +kernel
  obtain ⟨-, -, -, hreset⟩ := attempt_keeps_or_sets "1;;4".toText
  exact ⟨hmem, hreset [] ["4".toText] hmem (Or.inl rfl) _ .plain⟩

end Style

end TerminalMarkup
