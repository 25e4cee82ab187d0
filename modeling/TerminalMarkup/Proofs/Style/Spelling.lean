/-
Two spellings of the same numbers.

Codes, indexes and channels are read as numbers, so it does not matter for them how many
zeros a number begins with.  Two things are not read as numbers all the way.  A mode is
compared as text, and `05` is not the mode that `5` is; and beyond the limit of digits a
numeral is not read at all, and a code that is not read resets.  But for these two, strings
that spell the same numbers act alike (`attempt_respelled`).

The two strings are read side by side, turn by turn.  Fields that read alike make the same
code, so both readings take a mode at the same places; if the modes there are alike, both
turns take as many operands and make the same edits (`Turn.respelled`), and what is left
reads alike again.
-/
import TerminalMarkup.Proofs.Style.Codes
import TerminalMarkup.Proofs.Text.Numeral
import TerminalMarkup.Token.ControlSequence
import Mathlib.Data.List.Forall2

namespace TerminalMarkup

open Text ControlSequence

namespace Sgr

variable {field field' : Text} {fs fs' rest : List Text} {es : List Edit}

/-! ### Modes -/

/-- The mode that a code takes from the fields behind it. -/
def modeOf? (code : Text) (behind : List Text) : Option Text :=
  match Code.ofField code with
  | .extended _ => behind.head?
  | _ => none

/-- The fields that are taken as modes, in the order in which they are. -/
def modesOf (params : Text) : List Text :=
  (Cursor.start params).codes.filterMap fun turn => modeOf? turn.1 turn.2

/-- The two are the same mode, or neither is one that takes operands. -/
def SameMode (mode mode' : Text) : Prop :=
  (mode = indexMode ↔ mode' = indexMode) ∧ (mode = channelMode ↔ mode' = channelMode)

instance (mode mode' : Text) : Decidable (SameMode mode mode') :=
  inferInstanceAs (Decidable (_ ∧ _))

theorem modeOf?_eq {layer : Layer} (hcode : Code.ofField field = .extended layer)
    (behind : List Text) : modeOf? field behind = behind.head? := by
  rw [modeOf?, hcode]

/-- The modes of fields. -/
def fieldModes (fs : List Text) : List Text :=
  (Cursor.before fs).codes.filterMap fun turn => modeOf? turn.1 turn.2

theorem modesOf_eq (params : Text) : modesOf params = fieldModes (fields ';' params) := by
  rw [modesOf, Cursor.start_eq, fieldModes]

theorem Turn.fieldModes_eq (h : Turn field fs es rest) :
    fieldModes (field :: fs) = (modeOf? field fs).toList ++ fieldModes rest := by
  rw [fieldModes, h.codes_eq, List.filterMap_cons]
  cases modeOf? field fs with
  | none => rfl
  | some mode => rfl

/-! ### Reading alike -/

/-- The two fields read as the same number, or neither reads as one. -/
def SameReading (field field' : Text) : Prop :=
  Numeral.readInt? field = Numeral.readInt? field'

theorem SameReading.ofField_eq (h : SameReading field field') :
    Code.ofField field = Code.ofField field' := by
  rw [Code.ofField, Code.ofField, h]

theorem SameReading.octet?_eq (h : SameReading field field') : octet? field = octet? field' := by
  rw [octet?, octet?, h]

/-- Fields that read alike take modes at the same places. -/
theorem modeOf?_respelled (hcode : SameReading field field')
    (hfields : List.Forall₂ SameReading fs fs') :
    (modeOf? field fs = none ∧ modeOf? field' fs' = none) ∨
      ∃ mode mode', modeOf? field fs = some mode ∧ modeOf? field' fs' = some mode' := by
  simp only [modeOf?, ← hcode.ofField_eq]
  cases Code.ofField field with
  | edit e => exact .inl ⟨rfl, rfl⟩
  | unknown => exact .inl ⟨rfl, rfl⟩
  | extended layer =>
      cases hfields with
      | nil => exact .inl ⟨rfl, rfl⟩
      | cons hmode hrest => exact .inr ⟨_, _, rfl, rfl⟩

namespace Turn

/-- If the modes of the fields are alike, then those that the turns take are, and so are those
that are taken later. -/
theorem sameModes {es' : List Edit} {rest' : List Text} (h : Turn field fs es rest)
    (h' : Turn field' fs' es' rest') (hcode : SameReading field field')
    (hfields : List.Forall₂ SameReading fs fs')
    (hmodes : List.Forall₂ SameMode (fieldModes (field :: fs)) (fieldModes (field' :: fs'))) :
    (∀ mode ∈ modeOf? field fs, ∀ mode' ∈ modeOf? field' fs', SameMode mode mode') ∧
      List.Forall₂ SameMode (fieldModes rest) (fieldModes rest') := by
  rw [h.fieldModes_eq, h'.fieldModes_eq] at hmodes
  obtain ⟨hnone, hnone'⟩ | ⟨mode, mode', hsome, hsome'⟩ := modeOf?_respelled hcode hfields
  · rw [hnone, hnone'] at hmodes
    rw [hnone]
    exact ⟨by simp, hmodes⟩
  · rw [hsome, hsome'] at hmodes ⊢
    obtain ⟨hfirst, hlater⟩ := List.forall₂_cons.mp hmodes
    refine ⟨fun _ hmem _ hmem' => ?_, hlater⟩
    cases hmem
    cases hmem'
    exact hfirst

/-- Where the modes are alike, fields that read alike make the same turn. -/
theorem respelled (h : Turn field fs es rest) (hcode : SameReading field field')
    (hfields : List.Forall₂ SameReading fs fs')
    (hmode : ∀ mode ∈ modeOf? field fs, ∀ mode' ∈ modeOf? field' fs', SameMode mode mode') :
    ∃ rest', Turn field' fs' es rest' ∧ List.Forall₂ SameReading rest rest' := by
  have hsame := hcode.ofField_eq
  -- A code that takes a mode takes the first field on both sides.
  have hfirst : ∀ {layer}, Code.ofField field = .extended layer →
      ∀ mode ∈ fs.head?, ∀ mode' ∈ fs'.head?, SameMode mode mode' := by
    intro layer hextended
    rw [← modeOf?_eq hextended, ← modeOf?_eq (hsame ▸ hextended)]
    exact hmode
  cases h with
  | edit hedit => exact ⟨fs', .edit (hsame ▸ hedit) fs', hfields⟩
  | unknown hunknown => exact ⟨fs', .unknown (hsame ▸ hunknown) fs', hfields⟩
  | noMode hextended =>
      cases hfields
      exact ⟨[], .noMode (hsame ▸ hextended), .nil⟩
  | noIndex hextended =>
      obtain ⟨mode', gs, -, hnil, rfl⟩ := List.forall₂_cons_left_iff.mp hfields
      cases hnil
      obtain rfl := (hfirst hextended _ rfl _ rfl).1.mp rfl
      exact ⟨[], .noIndex (hsame ▸ hextended), .nil⟩
  | index hextended index =>
      obtain ⟨mode', gs, -, hoperand, rfl⟩ := List.forall₂_cons_left_iff.mp hfields
      obtain ⟨index', rest', hindex, hrest, rfl⟩ := List.forall₂_cons_left_iff.mp hoperand
      obtain rfl := (hfirst hextended _ rfl _ rfl).1.mp rfl
      refine ⟨rest', ?_, hrest⟩
      rw [paletteColor?, hindex.octet?_eq]
      exact .index (hsame ▸ hextended) index' rest'
  | channels hextended red green blue =>
      obtain ⟨mode', gs, -, hthree, rfl⟩ := List.forall₂_cons_left_iff.mp hfields
      obtain ⟨red', gs, hred, htwo, rfl⟩ := List.forall₂_cons_left_iff.mp hthree
      obtain ⟨green', gs, hgreen, hone, rfl⟩ := List.forall₂_cons_left_iff.mp htwo
      obtain ⟨blue', rest', hblue, hrest, rfl⟩ := List.forall₂_cons_left_iff.mp hone
      obtain rfl := (hfirst hextended _ rfl _ rfl).2.mp rfl
      refine ⟨rest', ?_, hrest⟩
      rw [directColor?, hred.octet?_eq, hgreen.octet?_eq, hblue.octet?_eq]
      exact .channels (hsame ▸ hextended) red' green' blue' rest'
  | noChannels hextended hshort =>
      obtain ⟨mode', rest', -, hrest, rfl⟩ := List.forall₂_cons_left_iff.mp hfields
      obtain rfl := (hfirst hextended _ rfl _ rfl).2.mp rfl
      exact ⟨rest', .noChannels (hsame ▸ hextended) (hrest.length_eq ▸ hshort), hrest⟩
  | otherMode hextended hindex hchannel =>
      obtain ⟨mode', rest', -, hrest, rfl⟩ := List.forall₂_cons_left_iff.mp hfields
      obtain ⟨hindexIff, hchannelIff⟩ := hfirst hextended _ rfl _ rfl
      exact ⟨rest', .otherMode (hsame ▸ hextended) (hindex ∘ hindexIff.mpr)
        (hchannel ∘ hchannelIff.mpr) rest', hrest⟩

end Turn

/-- Fields that read alike, with modes that are alike, make the same edits. -/
theorem fieldEdits_respelled (hfields : List.Forall₂ SameReading fs fs')
    (hmodes : List.Forall₂ SameMode (fieldModes fs) (fieldModes fs')) :
    fieldEdits fs = fieldEdits fs' := by
  induction fs using turn_induction generalizing fs' with
  | nil =>
      cases hfields
      rfl
  | turn hturn ih =>
      obtain ⟨field', gs, hcode, hbehind, rfl⟩ := List.forall₂_cons_left_iff.mp hfields
      obtain ⟨es', rest', hturn'⟩ := exists_turn field' gs
      have hfirst := (hturn.sameModes hturn' hcode hbehind hmodes).1
      obtain ⟨rest', hturn', hrest⟩ := hturn.respelled hcode hbehind hfirst
      have hlater := (hturn.sameModes hturn' hcode hbehind hmodes).2
      rw [hturn.fieldEdits_eq, hturn'.fieldEdits_eq, ih hrest hlater]

/-! ### Numbers -/

/-- The two fields are both empty, or spell the same decimal number. -/
def SameNumber (field field' : Text) : Prop :=
  (field = [] ∧ field' = []) ∨
    (field ≠ [] ∧ field' ≠ [] ∧ Numeral.decimal field = Numeral.decimal field')

instance (field field' : Text) : Decidable (SameNumber field field') :=
  inferInstanceAs (Decidable (_ ∨ _))

/-- Both fields are within the limit of digits, or both are beyond it. -/
def SameLimit (field field' : Text) : Prop :=
  field.length ≤ Numeral.digitLimit ↔ field'.length ≤ Numeral.digitLimit

instance (field field' : Text) : Decidable (SameLimit field field') :=
  inferInstanceAs (Decidable (_ ↔ _))

theorem SameNumber.sameReading (h : SameNumber field field') (hlimit : SameLimit field field')
    (hdigits : ∀ c ∈ field, isAsciiDigit c = true)
    (hdigits' : ∀ c ∈ field', isAsciiDigit c = true) : SameReading field field' := by
  obtain ⟨rfl, rfl⟩ | ⟨hne, hne', hnumber⟩ := h
  · rfl
  · rw [SameReading, Numeral.readInt?_digits hdigits hne, Numeral.readInt?_digits hdigits' hne',
      hnumber]
    exact if_congr hlimit rfl rfl

/-- A code beyond the limit resets, whatever number it spells. -/
theorem ofField_beyond_limit (hdigits : ∀ c ∈ field, isAsciiDigit c = true)
    (hlong : Numeral.digitLimit < field.length) : Code.ofField field = .edit .reset := by
  have hne : field ≠ [] := List.ne_nil_of_length_pos (Nat.zero_lt_of_lt hlong)
  rw [Code.ofField, Numeral.readInt?_digits hdigits hne, if_neg (Nat.not_le_of_lt hlong)]

/-- The fields of parameters are made of digits. -/
theorem isAsciiDigit_of_mem_fields {params : Text} (hparams : ∀ c ∈ params, isParam c = true)
    (hfield : field ∈ fields ';' params) : ∀ c ∈ field, isAsciiDigit c = true := by
  intro c hc
  have hsep : c ≠ ';' := fun heq => not_mem_of_mem_fields hfield (heq ▸ hc)
  have hmem := (mem_iff_mem_fields hsep).mpr ⟨field, hfield, hc⟩
  simpa [isParam, hsep] using hparams c hmem

theorem sameReading_fields {p p' : Text} (hp : ∀ c ∈ p, isParam c = true)
    (hp' : ∀ c ∈ p', isParam c = true)
    (hnumbers : List.Forall₂ SameNumber (fields ';' p) (fields ';' p'))
    (hlimits : List.Forall₂ SameLimit (fields ';' p) (fields ';' p')) :
    List.Forall₂ SameReading (fields ';' p) (fields ';' p') := by
  rw [List.forall₂_iff_get] at hnumbers hlimits ⊢
  refine ⟨hnumbers.1, fun i h h' => (hnumbers.2 i h h').sameReading (hlimits.2 i h h') ?_ ?_⟩
  · exact isAsciiDigit_of_mem_fields hp (List.get_mem _ _)
  · exact isAsciiDigit_of_mem_fields hp' (List.get_mem _ _)

end Sgr

namespace Style

/--
**Spellings of the same numbers act alike,** in every position, if the modes are spelt alike and
no number is spelt beyond the limit of digits on one side only.
-/
theorem attempt_respelled {p p' : Text} (hp : ∀ c ∈ p, isParam c = true)
    (hp' : ∀ c ∈ p', isParam c = true)
    (hnumbers : List.Forall₂ Sgr.SameNumber (fields ';' p) (fields ';' p'))
    (hlimits : List.Forall₂ Sgr.SameLimit (fields ';' p) (fields ';' p'))
    (hmodes : List.Forall₂ Sgr.SameMode (Sgr.modesOf p) (Sgr.modesOf p')) (s : Style) :
    ∃ t, s.attempt [.rendition p] = .ok t ∧ s.attempt [.rendition p'] = .ok t := by
  have hreadings := Sgr.sameReading_fields hp hp' hnumbers hlimits
  rw [Sgr.modesOf_eq, Sgr.modesOf_eq] at hmodes
  have hedits : Sgr.edits p = Sgr.edits p' := Sgr.fieldEdits_respelled hreadings hmodes
  refine ⟨Sgr.apply p s, attempt_eq s _, ?_⟩
  rw [attempt_eq, Sgr.apply, hedits]
  rfl

/-- Zeros in front of a code, an index and another code. -/
theorem attempt_zeros_in_front :
    List.Forall₂ Sgr.SameNumber (fields ';' "038;5;007;01".toText) (fields ';' "38;5;7;1".toText) ∧
    List.Forall₂ Sgr.SameLimit (fields ';' "038;5;007;01".toText) (fields ';' "38;5;7;1".toText) ∧
    List.Forall₂ Sgr.SameMode (Sgr.modesOf "038;5;007;01".toText) (Sgr.modesOf "38;5;7;1".toText) ∧
    ∃ t, Style.plain.attempt [.rendition "038;5;007;01".toText] = .ok t ∧
      Style.plain.attempt [.rendition "38;5;7;1".toText] = .ok t := by
  have hp : "038;5;007;01".toText.all isParam = true := by decide +kernel
  have hp' : "38;5;7;1".toText.all isParam = true := by decide +kernel
  have hnumbers : List.Forall₂ Sgr.SameNumber (fields ';' "038;5;007;01".toText)
      (fields ';' "38;5;7;1".toText) := by decide +kernel
  have hlimits : List.Forall₂ Sgr.SameLimit (fields ';' "038;5;007;01".toText)
      (fields ';' "38;5;7;1".toText) := by decide +kernel
  have hmodes : List.Forall₂ Sgr.SameMode (Sgr.modesOf "038;5;007;01".toText)
      (Sgr.modesOf "38;5;7;1".toText) := by decide +kernel
  exact ⟨hnumbers, hlimits, hmodes, attempt_respelled (List.all_eq_true.mp hp)
    (List.all_eq_true.mp hp') hnumbers hlimits hmodes .plain⟩

-- A mode with a zero in front is another mode, and the index behind it is a code.
example : Style.plain.attempt [.rendition "38;05;1".toText] = .ok { bold := true } ∧
    Style.plain.attempt [.rendition "38;5;1".toText] =
      .ok { foreground := some (Palette.color 1) } := by
  decide +kernel

end Style

end TerminalMarkup
