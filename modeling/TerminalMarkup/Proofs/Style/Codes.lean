/-
Which fields of a parameter string are codes, and when a string stands for itself.

A field is a code if the loop over the codes comes to it, and that hangs on all the codes
before it: 38 and 48 take fields of their own, how many depends on the mode, and mode 2
takes three or none.  It takes none if fewer are left, and so a field that was a code may
become an operand when something is put behind the string.  `Cursor.codes` follows the
loop and notes what it takes as a code, with what lies behind.

A string is self-contained if all its codes have the operands they call for.  Two strings
that are put together act one after the other just when the first of them is
self-contained (`attempt_join_iff`).  That it is enough is an induction along the reading;
that nothing less will do takes a second string of codes that make bold or that end it, just
as many as the first string wants operands: there they are swallowed.
-/
import TerminalMarkup.Proofs.Style.Palette
import TerminalMarkup.Proofs.Paths
import Mathlib.Data.List.Basic

namespace TerminalMarkup

theorem Text.fields_join (sep : CodePoint) (s t : Text) :
    fields sep (s ++ sep :: t) = fields sep s ++ fields sep t := by
  induction s with
  | nil => simp [fields]
  | cons c s ih =>
      rw [List.cons_append, fields, fields, ih]
      by_cases hsep : c = sep
      · rw [if_pos hsep, if_pos hsep, List.cons_append]
      · rw [if_neg hsep, if_neg hsep]
        cases hfields : fields sep s with
        | nil => exact absurd hfields (fields_ne_nil sep s)
        | cons field more => rfl

namespace Sgr

variable {field : Text} {layer : Layer}

/-! ### The codes of extended colours -/

/-- The number that an extended colour of the layer begins with. -/
def Layer.number : Layer → Int
  | .foreground => 38
  | .background => 48

theorem Code.ofInt_extended_iff {n : Int} : ofInt n = .extended layer ↔ n = layer.number := by
  constructor
  · intro h
    unfold ofInt at h
    repeat' split at h
    -- All codes but two are edits or unknown.
    all_goals cases h
    · rfl
    · rfl
  · intro h
    cases layer <;> rw [h] <;> rfl

theorem Code.ofField_extended_iff :
    ofField field = .extended layer ↔ Numeral.readInt? field = some layer.number := by
  unfold ofField
  cases Numeral.readInt? field with
  | none => simp
  | some n => simp [ofInt_extended_iff]

/-! ### Codes -/

namespace Cursor

/-- The fields that the loop over the codes takes as codes, each with the fields behind it. -/
def codes (c : Cursor) : List (Text × List Text) :=
  match _hnext : c.next with
  | .error _ => []
  | .ok (field, c) =>
    match Code.ofField field with
    | .extended _ =>
      match _hextended : c.takeExtended with
      | .error _ => [(field, c.ahead)]
      | .ok (_, rest) => (field, c.ahead) :: rest.codes
    | _ => (field, c.ahead) :: c.codes
termination_by c.ahead.length
decreasing_by
  · exact Nat.lt_of_le_of_lt (length_takeExtended_le _hextended) (length_next_lt _hnext)
  · exact length_next_lt _hnext

theorem codes_nil : (before []).codes = [] := by
  rw [codes]
  rfl

/-- One turn of the loop over the codes. -/
theorem codes_cons (field : Text) (fs : List Text) :
    (before (field :: fs)).codes =
      match Code.ofField field with
      | .extended _ =>
        match (before fs).takeExtended with
        | .error _ => [(field, fs)]
        | .ok (_, rest) => (field, fs) :: rest.codes
      | _ => (field, fs) :: (before fs).codes := by
  rw [codes]
  split
  · rename_i hnext
    cases hnext
  rename_i taken c hnext
  obtain ⟨rfl, rfl⟩ : field = taken ∧ before fs = c := by
    cases hnext
    exact ⟨rfl, rfl⟩
  cases Code.ofField field with
  | edit e => rfl
  | unknown => rfl
  | extended layer =>
      simp only
      split
      · rename_i hextended
        rw [hextended]
        rfl
      · rename_i hextended
        rw [hextended]
        rfl

end Cursor

namespace Turn

variable {fs rest : List Text} {es : List Edit}

theorem codes_eq (h : Turn field fs es rest) :
    (Cursor.before (field :: fs)).codes = (field, fs) :: (Cursor.before rest).codes := by
  rw [Cursor.codes_cons]
  cases h with
  | edit hcode => simp only [hcode]
  | unknown hcode => simp only [hcode]
  | noMode hcode => simp only [hcode, Cursor.takeExtended_nil]
  | noIndex hcode => simp only [hcode, Cursor.takeExtended_index_nil]
  | index hcode => simp only [hcode, Cursor.takeExtended_index]
  | channels hcode => simp only [hcode, Cursor.takeExtended_channels]
  | noChannels hcode hshort => simp only [hcode, Cursor.takeExtended_short hshort]
  | otherMode hcode hindex hchannel =>
      simp only [hcode, Cursor.takeExtended_other hindex hchannel]

end Turn

/-! ### Strings that are self-contained -/

/-- The fields behind a code are all that it calls for: behind 38 and 48 a mode, behind mode 5 a
field at least and behind mode 2 three fields at least. -/
def HasOperands (code : Text) (behind : List Text) : Prop :=
  ∀ layer : Layer, Numeral.readInt? code = some layer.number →
    ∃ mode operands, behind = mode :: operands ∧
      (mode = indexMode → 1 ≤ operands.length) ∧ (mode = channelMode → 3 ≤ operands.length)

/-- Every field that is read as a code has its operands within the string. -/
def SelfContained (params : Text) : Prop :=
  ∀ turn ∈ (Cursor.start params).codes, HasOperands turn.1 turn.2

theorem hasOperands_of_not_extended (h : ∀ layer, Code.ofField field ≠ .extended layer)
    (behind : List Text) : HasOperands field behind := by
  intro layer hnumber
  exact absurd (Code.ofField_extended_iff.mpr hnumber) (h layer)

theorem not_hasOperands_nil (hcode : Code.ofField field = .extended layer) :
    ¬HasOperands field [] := by
  intro h
  obtain ⟨mode, operands, hbehind, -⟩ := h layer (Code.ofField_extended_iff.mp hcode)
  cases hbehind

theorem hasOperands_cons_iff (hcode : Code.ofField field = .extended layer) (mode : Text)
    (operands : List Text) :
    HasOperands field (mode :: operands) ↔
      (mode = indexMode → 1 ≤ operands.length) ∧ (mode = channelMode → 3 ≤ operands.length) := by
  constructor
  · intro h
    obtain ⟨_, _, hbehind, hcount⟩ := h layer (Code.ofField_extended_iff.mp hcode)
    cases hbehind
    exact hcount
  · intro hcount _ _
    exact ⟨mode, operands, rfl, hcount⟩

namespace Turn

variable {fs rest : List Text} {es : List Edit}

theorem isComplete_iff (h : Turn field fs es rest) :
    isComplete (field :: fs) = true ↔ HasOperands field fs ∧ isComplete rest = true := by
  cases h with
  | edit hcode =>
      rw [isComplete.eq_def (field :: fs)]
      simp [hcode, hasOperands_of_not_extended]
  | unknown hcode =>
      rw [isComplete.eq_def (field :: fs)]
      simp [hcode, hasOperands_of_not_extended]
  | noMode hcode => simp [isComplete, hcode, not_hasOperands_nil hcode]
  | noIndex hcode => simp [isComplete, hcode, hasOperands_cons_iff hcode]
  | index hcode => simp [isComplete, hcode, hasOperands_cons_iff hcode, indexMode_ne_channelMode]
  | channels hcode =>
      simp [isComplete, hcode, hasOperands_cons_iff hcode, indexMode_ne_channelMode.symm]
  | noChannels hcode hshort =>
      rcases rest with - | ⟨red, - | ⟨green, - | ⟨blue, fs⟩⟩⟩
      · simp [isComplete, hcode, hasOperands_cons_iff hcode, indexMode_ne_channelMode.symm]
      · simp [isComplete, hcode, hasOperands_cons_iff hcode, indexMode_ne_channelMode.symm]
      · simp [isComplete, hcode, hasOperands_cons_iff hcode, indexMode_ne_channelMode.symm]
      · exact absurd hshort (by simp)
  | @otherMode _ hcode mode hindex hchannel =>
      rw [isComplete.eq_def (field :: mode :: rest)]
      simp [hcode, hasOperands_cons_iff hcode, hindex, hchannel]

/-- A turn that has its operands is the same whatever is put behind. -/
theorem append (h : Turn field fs es rest) (hoperands : HasOperands field fs) (gs : List Text) :
    Turn field (fs ++ gs) es (rest ++ gs) := by
  cases h with
  | edit hcode => exact .edit hcode (fs ++ gs)
  | unknown hcode => exact .unknown hcode (fs ++ gs)
  | noMode hcode => exact absurd hoperands (not_hasOperands_nil hcode)
  | noIndex hcode =>
      have hcount := ((hasOperands_cons_iff hcode _ _).mp hoperands).1 rfl
      simp at hcount
  | index hcode index => exact .index hcode index (rest ++ gs)
  | channels hcode red green blue => exact .channels hcode red green blue (rest ++ gs)
  | noChannels hcode hshort =>
      have hcount := ((hasOperands_cons_iff hcode _ _).mp hoperands).2 rfl
      omega
  | otherMode hcode hindex hchannel => exact .otherMode hcode hindex hchannel (rest ++ gs)

/-- A turn that wants operands takes them from what is put behind: as many fields as are wanting
are no codes. -/
theorem exists_swallowed (h : Turn field fs es rest) (hoperands : ¬HasOperands field fs) :
    ∃ n, ∀ gs : List Text, gs.length = n + 1 →
      ∃ layer color, fieldEdits (field :: (fs ++ gs)) = colorEdits layer color := by
  cases h with
  | edit hcode => exact absurd (hasOperands_of_not_extended (by simp [hcode]) fs) hoperands
  | unknown hcode => exact absurd (hasOperands_of_not_extended (by simp [hcode]) fs) hoperands
  | @noMode layer hcode =>
      refine ⟨0, fun gs hgs => ⟨layer, none, ?_⟩⟩
      obtain ⟨mode, rfl⟩ := List.length_eq_one_iff.mp hgs
      simp [fieldEdits, hcode, colorEdits]
  | @noIndex layer hcode =>
      refine ⟨0, fun gs hgs => ?_⟩
      obtain ⟨index, rfl⟩ := List.length_eq_one_iff.mp hgs
      exact ⟨layer, paletteColor? index, by simp [fieldEdits, hcode]⟩
  | index hcode => simp [hasOperands_cons_iff hcode, indexMode_ne_channelMode] at hoperands
  | channels hcode => simp [hasOperands_cons_iff hcode, indexMode_ne_channelMode.symm] at hoperands
  | @noChannels layer hcode hshort =>
      refine ⟨2 - rest.length, fun gs hgs => ?_⟩
      have hlength : (rest ++ gs).length = 3 := by
        rw [List.length_append]
        omega
      obtain ⟨red, green, blue, hthree⟩ := List.length_eq_three.mp hlength
      refine ⟨layer, directColor? red green blue, ?_⟩
      simp [fieldEdits, hcode, hthree, indexMode_ne_channelMode.symm]
  | otherMode hcode hindex hchannel =>
      simp [hasOperands_cons_iff hcode, hindex, hchannel] at hoperands

end Turn

/-- The executable check finds out whether all operands are there. -/
theorem isComplete_iff (fs : List Text) :
    isComplete fs = true ↔ ∀ turn ∈ (Cursor.before fs).codes, HasOperands turn.1 turn.2 := by
  induction fs using turn_induction with
  | nil => simp [isComplete, Cursor.codes_nil]
  | turn hturn ih => rw [hturn.isComplete_iff, hturn.codes_eq, List.forall_mem_cons, ih]

theorem selfContained_iff (params : Text) :
    SelfContained params ↔ isComplete (Text.fields ';' params) = true := by
  rw [isComplete_iff, SelfContained, Cursor.start_eq]

/-! ### Putting strings together -/

/-- What lies behind complete fields has no part in how they are read. -/
theorem fieldEdits_append {fs : List Text} (h : isComplete fs = true) (gs : List Text) :
    fieldEdits (fs ++ gs) = fieldEdits fs ++ fieldEdits gs := by
  induction fs using turn_induction with
  | nil => rfl
  | turn hturn ih =>
      obtain ⟨hoperands, hrest⟩ := hturn.isComplete_iff.mp h
      rw [List.cons_append, (hturn.append hoperands gs).fieldEdits_eq, ih hrest,
        hturn.fieldEdits_eq, List.append_assoc]

/-- Behind fields that are not complete there is room for fields that are no codes. -/
theorem exists_fieldEdits_append {fs : List Text} (h : isComplete fs = false) :
    ∃ es n, ∀ gs : List Text, gs.length = n + 1 →
      ∃ layer color, fieldEdits (fs ++ gs) = es ++ colorEdits layer color := by
  induction fs using turn_induction with
  | nil => cases h
  | @turn field fs es rest hturn ih =>
      by_cases hoperands : HasOperands field fs
      · have hrest : isComplete rest = false := by
          rw [← Bool.not_eq_true] at h ⊢
          intro hrest
          exact h (hturn.isComplete_iff.mpr ⟨hoperands, hrest⟩)
        obtain ⟨es', n, hswallowed⟩ := ih hrest
        refine ⟨es ++ es', n, fun gs hgs => ?_⟩
        obtain ⟨layer, color, hedits⟩ := hswallowed gs hgs
        refine ⟨layer, color, ?_⟩
        rw [List.cons_append, (hturn.append hoperands gs).fieldEdits_eq, hedits, List.append_assoc]
      · obtain ⟨n, hswallowed⟩ := hturn.exists_swallowed hoperands
        exact ⟨[], n, hswallowed⟩

theorem apply_join {p : Text} (h : SelfContained p) (q : Text) (s : Style) :
    apply (p ++ .scalar ';' :: q) s = apply q (apply p s) := by
  unfold apply edits
  rw [Text.fields_join, fieldEdits_append ((selfContained_iff p).mp h), Cursor.applyEdits_append]

/-! ### Strings that are not -/

/-- Bold can be switched on and off by a code. -/
theorem exists_boldCode (on : Bool) :
    ∃ field : Text, (';' : CodePoint) ∉ field ∧ Code.ofField field = .edit (.bold on) := by
  cases on
  · exact ⟨['2', '1'], by decide, rfl⟩
  · exact ⟨['1'], by decide, rfl⟩

theorem fieldEdits_replicate {e : Edit} (hcode : Code.ofField field = .edit e) (n : Nat) :
    fieldEdits (List.replicate n field) = List.replicate n e := by
  induction n with
  | zero => rfl
  | succ n ih => simp [List.replicate_succ, fieldEdits, hcode, ih]

theorem bold_applyEdits_replicate (on : Bool) (n : Nat) (s : Style) :
    (applyEdits (List.replicate (n + 1) (.bold on)) s).bold = on := by
  rw [List.replicate_succ', Cursor.applyEdits_append]
  rfl

theorem bold_applyEdits_colorEdits (layer : Layer) (color : Option Color) (s : Style) :
    (applyEdits (colorEdits layer color) s).bold = s.bold := by
  cases layer <;> cases color <;> rfl

/-- Behind a string that is not self-contained another one can lose what it does: the code for
bold, or for its end, as often as operands are wanting. -/
theorem exists_apply_join_ne {p : Text} (h : ¬SelfContained p) :
    ∃ q, apply (p ++ .scalar ';' :: q) .plain ≠ apply q (apply p .plain) := by
  rw [selfContained_iff, Bool.not_eq_true] at h
  obtain ⟨es, n, hswallowed⟩ := exists_fieldEdits_append h
  obtain ⟨code, hsep, hcode⟩ := exists_boldCode (!(applyEdits es .plain).bold)
  have hfields : Text.fields ';' ([.scalar ';'].intercalate (List.replicate (n + 1) code)) =
      List.replicate (n + 1) code := by
    refine Text.fields_intercalate (fun part hpart => ?_) (by simp [List.replicate_succ])
    rw [List.eq_of_mem_replicate hpart]
    exact hsep
  refine ⟨[.scalar ';'].intercalate (List.replicate (n + 1) code), fun heq => ?_⟩
  obtain ⟨layer, color, hedits⟩ := hswallowed (List.replicate (n + 1) code) (by simp)
  have hjoined : (apply
      (p ++ .scalar ';' :: [.scalar ';'].intercalate (List.replicate (n + 1) code)) .plain).bold =
      (applyEdits es .plain).bold := by
    rw [apply, edits, Text.fields_join, hfields, hedits, Cursor.applyEdits_append,
      bold_applyEdits_colorEdits]
  have hapart : ∀ s, (apply ([.scalar ';'].intercalate (List.replicate (n + 1) code)) s).bold =
      !(applyEdits es .plain).bold := by
    intro s
    rw [apply, edits, hfields, fieldEdits_replicate hcode, bold_applyEdits_replicate]
  rw [heq, hapart] at hjoined
  simp at hjoined

end Sgr

namespace Style

/--
**Two strings that are put together act one after the other, whatever the second of them is, just
when the first is self-contained.**
-/
theorem attempt_join_iff (p : Text) :
    Sgr.SelfContained p ↔ ∀ (q : Text) (s : Style), ∃ t,
      s.attempt [.rendition (p ++ .scalar ';' :: q)] = .ok t ∧
        s.attempt [.rendition p, .rendition q] = .ok t := by
  constructor
  · intro h q s
    refine ⟨Sgr.apply q (Sgr.apply p s), ?_, attempt_eq s _⟩
    rw [attempt_eq, ← Sgr.apply_join h]
    rfl
  · intro h
    by_contra hself
    obtain ⟨q, hne⟩ := Sgr.exists_apply_join_ne hself
    obtain ⟨t, hjoined, hapart⟩ := h q .plain
    rw [attempt_eq] at hjoined hapart
    have hsame := hjoined.trans hapart.symm
    exact hne (Except.ok.inj hsame)

example : ¬Sgr.SelfContained "1;38;2;10;20".toText := by
  rw [Sgr.selfContained_iff]
  decide +kernel

end Style

end TerminalMarkup
