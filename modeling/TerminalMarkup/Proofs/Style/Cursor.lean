/-
A reading under a cursor does not break off.

The cursor's count is the number of the fields ahead when it starts, and every field
that is taken lowers both by one.  So an extended colour, which goes by the count, asks
for no field that is not there; and every number that the palette is asked for lies
between the two ends of a range that the palette has.  What comes out is the style that
`Sgr.apply` gives.

An extended colour takes as many fields as its mode says, so the induction is not on the
fields one by one.  It goes by turns (`turn_induction`): a `Turn` is a code with its
operands, the edits that these make and the fields that are left.
-/
import TerminalMarkup.Sgr.Cursor

namespace TerminalMarkup

theorem Text.length_fields (sep : CodePoint) (t : Text) :
    (fields sep t).length = t.count sep + 1 := by
  induction t with
  | nil => rfl
  | cons c rest ih =>
      rw [fields]
      by_cases hsep : c = sep
      · rw [if_pos hsep, List.length_cons, ih, hsep, List.count_cons_self]
      · rw [if_neg hsep, List.count_cons_of_ne hsep, ← ih]
        cases hfields : fields sep rest with
        | nil => exact absurd hfields (fields_ne_nil sep rest)
        | cons field more => rfl

namespace Sgr

/-! ### Colours by number -/

theorem toNat_octet {n : Int} (h : 0 ≤ n ∧ n ≤ 255) : n.toNat < 256 := by omega

/-- The palette has an entry for every octet. -/
theorem lookup_octet {n : Int} (h : 0 ≤ n ∧ n ≤ 255) :
    Palette.lookup n = .ok (Palette.color ⟨n.toNat, toNat_octet h⟩) := by
  have hword : Numeral.fitsWord n = true := by
    have hbound : Numeral.wordBound = 9223372036854775808 := by decide
    simp only [Numeral.fitsWord, hbound, Bool.and_eq_true, decide_eq_true_eq]
    omega
  have hnonneg : ¬n < 0 := by omega
  have hrange : 0 ≤ n ∧ n < 256 := by omega
  unfold Palette.lookup
  simp only [hword, hnonneg, if_false, Bool.not_true, Bool.false_eq_true]
  rw [dif_pos hrange]

theorem entry_octet {n : Int} (h : 0 ≤ n ∧ n ≤ 255) :
    entry n = .ok (Palette.color ⟨n.toNat, toNat_octet h⟩) := by
  rw [entry, lookup_octet h]
  rfl

theorem indexedColor_eq (index : Text) : indexedColor index = .ok (paletteColor? index) := by
  unfold indexedColor paletteColor? octet?
  cases Numeral.readInt? index with
  | none => rfl
  | some n =>
      by_cases hrange : 0 ≤ n ∧ n ≤ 255
      · simp only [hrange, and_self, if_true, dif_pos, entry_octet hrange]
        rfl
      · simp only [if_neg hrange, dif_neg hrange]
        rfl

theorem entry_normal {n : Int} (h : 0 ≤ n ∧ n ≤ 7) :
    entry n = .ok (Palette.normal ⟨n.toNat, by omega⟩) :=
  entry_octet (by omega)

theorem entry_bright {n : Int} (h : 0 ≤ n ∧ n ≤ 7) :
    entry (8 + n) = .ok (Palette.bright ⟨n.toNat, by omega⟩) := by
  have hindex : (8 + n).toNat = 8 + n.toNat := by omega
  rw [entry_octet (by omega), Palette.bright]
  simp only [hindex]

/-- The numbers that the codes of named colours ask for are below sixteen. -/
theorem codeOf_eq (n : Int) : codeOf n = .ok (Code.ofInt n) := by
  unfold codeOf Code.ofInt
  by_cases hforeground : 30 ≤ n ∧ n ≤ 37
  · rw [if_pos hforeground, entry_normal (by omega)]
    split
    any_goals omega
    rw [dif_pos hforeground]
    rfl
  rw [if_neg hforeground]
  by_cases hbackground : 40 ≤ n ∧ n ≤ 47
  · rw [if_pos hbackground, entry_normal (by omega)]
    split
    any_goals omega
    rw [dif_neg hforeground, dif_pos hbackground]
    rfl
  rw [if_neg hbackground]
  by_cases hbrightForeground : 90 ≤ n ∧ n ≤ 97
  · rw [if_pos hbrightForeground, entry_bright (by omega)]
    split
    any_goals omega
    rw [dif_neg hforeground, dif_neg hbackground, dif_pos hbrightForeground]
    rfl
  rw [if_neg hbrightForeground]
  by_cases hbrightBackground : 100 ≤ n ∧ n ≤ 107
  · rw [if_pos hbrightBackground, entry_bright (by omega)]
    split
    any_goals omega
    rw [dif_neg hforeground, dif_neg hbackground, dif_neg hbrightForeground,
      dif_pos hbrightBackground]
    rfl
  rw [if_neg hbrightBackground]

/-! ### Counting what is left -/

theorem indexMode_ne_channelMode : indexMode ≠ channelMode := by decide

namespace Cursor

/-- The cursor in front of fields, its count right. -/
def before (fs : List Text) : Cursor := ⟨fs, fs.length⟩

theorem start_eq (params : Text) : start params = before (Text.fields ';' params) := by
  rw [start, before, Text.length_fields]

theorem next_before (field : Text) (fs : List Text) :
    (before (field :: fs)).next = .ok (field, before fs) := rfl

theorem takeIndexed_before (index : Text) (fs : List Text) :
    (before (index :: fs)).takeIndexed = .ok (paletteColor? index, before fs) := by
  rw [takeIndexed, next_before]
  simp only [indexedColor_eq]
  rfl

theorem takeDirect_before (red green blue : Text) (fs : List Text) :
    (before (red :: green :: blue :: fs)).takeDirect
      = .ok (directColor? red green blue, before fs) := rfl

/-! ### What an extended colour takes -/

theorem takeExtended_cons (mode : Text) (fs : List Text) :
    (before (mode :: fs)).takeExtended =
      if mode = indexMode ∧ fs.length ≠ 0 then (before fs).takeIndexed
      else if mode = channelMode ∧ 3 ≤ fs.length then (before fs).takeDirect
      else .ok (none, before fs) := rfl

theorem takeExtended_nil : (before []).takeExtended = .ok (none, before []) := rfl

theorem takeExtended_index_nil :
    (before [indexMode]).takeExtended = .ok (none, before []) := rfl

theorem takeExtended_index (index : Text) (fs : List Text) :
    (before (indexMode :: index :: fs)).takeExtended = .ok (paletteColor? index, before fs) := by
  rw [takeExtended_cons, if_pos ⟨rfl, by simp⟩, takeIndexed_before]

theorem takeExtended_channels (red green blue : Text) (fs : List Text) :
    (before (channelMode :: red :: green :: blue :: fs)).takeExtended =
      .ok (directColor? red green blue, before fs) := by
  rw [takeExtended_cons, if_neg fun h => indexMode_ne_channelMode h.1.symm,
    if_pos ⟨rfl, by simp⟩, takeDirect_before]

theorem takeExtended_short {fs : List Text} (hshort : fs.length < 3) :
    (before (channelMode :: fs)).takeExtended = .ok (none, before fs) := by
  rw [takeExtended_cons, if_neg fun h => indexMode_ne_channelMode h.1.symm,
    if_neg fun h => absurd h.2 (by omega)]

theorem takeExtended_other {mode : Text} (hindex : mode ≠ indexMode) (hchannel : mode ≠ channelMode)
    (fs : List Text) : (before (mode :: fs)).takeExtended = .ok (none, before fs) := by
  rw [takeExtended_cons, if_neg fun h => hindex h.1, if_neg fun h => hchannel h.1]

end Cursor

variable {field : Text}

/-! ### Turns -/

/-- One turn of the reading: what lies behind the code, the edits that are made and what is left. -/
inductive Turn : Text → List Text → List Edit → List Text → Prop
  | edit {field : Text} {e : Edit} (hcode : Code.ofField field = .edit e) (fs : List Text) :
      Turn field fs [e] fs
  | unknown {field : Text} (hcode : Code.ofField field = .unknown) (fs : List Text) :
      Turn field fs [] fs
  | noMode {field : Text} {layer : Layer} (hcode : Code.ofField field = .extended layer) :
      Turn field [] [] []
  | noIndex {field : Text} {layer : Layer} (hcode : Code.ofField field = .extended layer) :
      Turn field [indexMode] [] []
  | index {field : Text} {layer : Layer} (hcode : Code.ofField field = .extended layer)
      (index : Text) (fs : List Text) :
      Turn field (indexMode :: index :: fs) (colorEdits layer (paletteColor? index)) fs
  | channels {field : Text} {layer : Layer} (hcode : Code.ofField field = .extended layer)
      (red green blue : Text) (fs : List Text) :
      Turn field (channelMode :: red :: green :: blue :: fs)
        (colorEdits layer (directColor? red green blue)) fs
  | noChannels {field : Text} {layer : Layer} (hcode : Code.ofField field = .extended layer)
      {fs : List Text} (hshort : fs.length < 3) : Turn field (channelMode :: fs) [] fs
  | otherMode {field : Text} {layer : Layer} (hcode : Code.ofField field = .extended layer)
      {mode : Text} (hindex : mode ≠ indexMode) (hchannel : mode ≠ channelMode) (fs : List Text) :
      Turn field (mode :: fs) [] fs

theorem exists_turn (field : Text) (fs : List Text) : ∃ es rest, Turn field fs es rest := by
  cases hcode : Code.ofField field with
  | edit e => exact ⟨[e], fs, .edit hcode fs⟩
  | unknown => exact ⟨[], fs, .unknown hcode fs⟩
  | extended layer =>
      cases fs with
      | nil => exact ⟨[], [], .noMode hcode⟩
      | cons mode fs =>
          by_cases hindex : mode = indexMode
          · subst hindex
            cases fs with
            | nil => exact ⟨[], [], .noIndex hcode⟩
            | cons index fs => exact ⟨_, fs, .index hcode index fs⟩
          by_cases hchannel : mode = channelMode
          · subst hchannel
            rcases fs with - | ⟨red, - | ⟨green, - | ⟨blue, fs⟩⟩⟩
            · exact ⟨[], _, .noChannels hcode (by simp)⟩
            · exact ⟨[], _, .noChannels hcode (by simp)⟩
            · exact ⟨[], _, .noChannels hcode (by simp)⟩
            · exact ⟨_, fs, .channels hcode red green blue fs⟩
          · exact ⟨[], fs, .otherMode hcode hindex hchannel fs⟩

namespace Turn

variable {fs rest : List Text} {es : List Edit}

theorem length_le (h : Turn field fs es rest) : rest.length ≤ fs.length := by
  cases h <;> simp <;> omega

theorem fieldEdits_eq (h : Turn field fs es rest) :
    fieldEdits (field :: fs) = es ++ fieldEdits rest := by
  cases h with
  | edit hcode => simp [fieldEdits, hcode]
  | unknown hcode => simp [fieldEdits, hcode]
  | noMode hcode => simp [fieldEdits, hcode]
  | noIndex hcode => simp [fieldEdits, hcode]
  | index hcode => simp [fieldEdits, hcode]
  | channels hcode => simp [fieldEdits, hcode, indexMode_ne_channelMode.symm]
  | noChannels hcode hshort =>
      rcases rest with - | ⟨red, - | ⟨green, - | ⟨blue, fs⟩⟩⟩
      · simp [fieldEdits, hcode, indexMode_ne_channelMode.symm]
      · simp [fieldEdits, hcode, indexMode_ne_channelMode.symm]
      · simp [fieldEdits, hcode, indexMode_ne_channelMode.symm]
      · exact absurd hshort (by simp)
  | otherMode hcode hindex hchannel => simp [fieldEdits, hcode, hindex, hchannel]

end Turn

/-- What holds of no fields, and of fields if it holds of those that a turn leaves, holds of all. -/
theorem turn_induction {motive : List Text → Prop} (nil : motive [])
    (turn : ∀ {field fs es rest}, Turn field fs es rest → motive rest → motive (field :: fs))
    (fs : List Text) : motive fs := by
  induction hn : fs.length using Nat.strongRecOn generalizing fs with
  | ind n ih =>
      subst hn
      cases fs with
      | nil => exact nil
      | cons field fs =>
          obtain ⟨es, rest, hturn⟩ := exists_turn field fs
          exact turn hturn (ih _ (Nat.lt_succ_of_le hturn.length_le) rest rfl)

namespace Cursor

/-! ### The whole reading -/

@[simp] theorem colorEdits_none (layer : Layer) : colorEdits layer none = [] := rfl

theorem applyEdits_append (es es' : List Edit) (s : Style) :
    applyEdits (es ++ es') s = applyEdits es' (applyEdits es s) := List.foldl_append

/-- One turn of the loop over the codes. -/
theorem apply_cons (field : Text) (fs : List Text) (s : Style) :
    (before (field :: fs)).apply s =
      match Code.ofField field with
      | .edit e => (before fs).apply (e.apply s)
      | .unknown => (before fs).apply s
      | .extended layer =>
        match (before fs).takeExtended with
        | .error e => .error e
        | .ok (color, c) => c.apply (applyEdits (colorEdits layer color) s) := by
  rw [apply]
  split
  · rename_i hnext
    cases hnext
  rename_i taken c hnext
  obtain ⟨rfl, rfl⟩ : field = taken ∧ before fs = c := by
    cases hnext
    exact ⟨rfl, rfl⟩
  rw [Code.ofField]
  cases Numeral.readInt? field with
  | none => rfl
  | some n =>
      simp only [codeOf_eq]
      cases Code.ofInt n with
      | edit e => rfl
      | unknown => rfl
      | extended layer =>
          simp only
          split
          · rename_i hextended
            rw [hextended]
          · rename_i hextended
            rw [hextended]

theorem apply_turn {fs rest : List Text} {es : List Edit} (h : Turn field fs es rest) (s : Style) :
    (before (field :: fs)).apply s = (before rest).apply (applyEdits es s) := by
  rw [apply_cons]
  cases h with
  | edit hcode =>
      rw [hcode]
      rfl
  | unknown hcode =>
      rw [hcode]
      rfl
  | noMode hcode => simp only [hcode, takeExtended_nil, colorEdits_none]
  | noIndex hcode => simp only [hcode, takeExtended_index_nil, colorEdits_none]
  | index hcode => simp only [hcode, takeExtended_index]
  | channels hcode => simp only [hcode, takeExtended_channels]
  | noChannels hcode hshort => simp only [hcode, takeExtended_short hshort, colorEdits_none]
  | otherMode hcode hindex hchannel =>
      simp only [hcode, takeExtended_other hindex hchannel, colorEdits_none]

/-- **A reading under a cursor whose count is right does not break off,** and gives the style that
the edits of the fields make. -/
theorem apply_before (fs : List Text) (s : Style) :
    (before fs).apply s = .ok (applyEdits (fieldEdits fs) s) := by
  induction fs using turn_induction generalizing s with
  | nil =>
      rw [apply]
      rfl
  | turn hturn ih => rw [apply_turn hturn, ih, hturn.fieldEdits_eq, applyEdits_append]

/-- **A parameter string is read to its end.** -/
theorem apply_start (params : Text) (s : Style) :
    (start params).apply s = .ok (Sgr.apply params s) := by
  rw [start_eq, apply_before]
  rfl

end Cursor

end Sgr

end TerminalMarkup
