/-
Extended colours keep to their operands.

In the middle of a string, 38 and 48 with a mode take the operands that the mode calls for,
whatever these are, and act as one change of the style.  With operands that are octets the
change sets the layer to a colour; with any other operand, be it empty, out of range or no
numeral, there is no change at all, and none of the operands is taken for a code.

Each of the cases of `Aligned` is one turn of the reading, and the turn is the same
whatever stands behind it.  `actsAs_of_turn` says what that means for the string: it acts
as what stands before the turn, then as the turn, then as what stands behind.
-/
import TerminalMarkup.Proofs.Style.Codes

namespace TerminalMarkup

namespace Text

variable {sep : CodePoint}

/-- The fields of parts that are put together are the fields of the parts. -/
theorem fields_join_all {parts : List Text} (h : parts ≠ []) :
    fields sep ([sep].intercalate parts) = parts.flatMap (fields sep) := by
  induction parts with
  | nil => exact absurd rfl h
  | cons part parts ih =>
      cases parts with
      | nil => simp
      | cons next parts =>
          have hsplit : [sep].intercalate (part :: next :: parts) =
              part ++ sep :: [sep].intercalate (next :: parts) := by simp
          rw [hsplit, fields_join, ih (by simp)]
          rfl

end Text

namespace Sgr

variable {field : Text} {fs : List Text} {layer : Layer} {p? q? : Option Text}

/-- The fields that act as codes. -/
def codesOf (params : Text) : List Text := (Cursor.start params).codes.map Prod.fst

theorem codesOf_append (h : isComplete fs = true) (gs : List Text) :
    (Cursor.before (fs ++ gs)).codes.map Prod.fst =
      (Cursor.before fs).codes.map Prod.fst ++ (Cursor.before gs).codes.map Prod.fst := by
  induction fs using turn_induction with
  | nil => simp [Cursor.codes_nil]
  | turn hturn ih =>
      obtain ⟨hoperands, hrest⟩ := hturn.isComplete_iff.mp h
      rw [List.cons_append, (hturn.append hoperands gs).codes_eq, hturn.codes_eq, List.map_cons,
        List.map_cons, ih hrest, List.cons_append]

/-! ### Acting in the middle of a string -/

/-- The string of tokens that stand between two strings, each of which may be missing. -/
def between (p? q? : Option Text) (tokens : List Text) : Text :=
  [.scalar ';'].intercalate (p?.toList ++ tokens ++ q?.toList)

/-- What a string that may be missing does to a style. -/
def renditions (params? : Option Text) : List Style.Step := params?.toList.map .rendition

/-- Between the two strings, whatever they do, the tokens act as one change of the style. -/
structure ActsAs (p? q? : Option Text) (tokens : List Text) (change : Style → Style) : Prop where
  /-- The first string is followed by the change, and that by the second. -/
  style : ∀ s : Style, s.attempt [.rendition (between p? q? tokens)] =
    .ok ((change (s.run (renditions p?))).run (renditions q?))
  /-- Of the tokens only the first is a code. -/
  codes : codesOf (between p? q? tokens) =
    p?.toList.flatMap codesOf ++ tokens.take 1 ++ q?.toList.flatMap codesOf

theorem fields_between {tokens : List Text} (hne : tokens ≠ [])
    (h : ∀ t ∈ tokens, (';' : CodePoint) ∉ t) :
    Text.fields ';' (between p? q? tokens) =
      p?.toList.flatMap (Text.fields ';') ++ (tokens ++ q?.toList.flatMap (Text.fields ';')) := by
  have htokens : tokens.flatMap (Text.fields ';') = tokens := by
    rw [← Text.fields_join_all hne, Text.fields_intercalate h hne]
  rw [between, Text.fields_join_all (by simp [hne]), List.flatMap_append, List.flatMap_append,
    htokens, List.append_assoc]

theorem isComplete_flatMap_fields (hp : ∀ p ∈ p?, SelfContained p) :
    isComplete (p?.toList.flatMap (Text.fields ';')) = true := by
  cases p? with
  | none => rfl
  | some p => simpa using (selfContained_iff p).mp (hp p rfl)

theorem run_renditions (params? : Option Text) (s : Style) :
    s.run (renditions params?) =
      applyEdits (fieldEdits (params?.toList.flatMap (Text.fields ';'))) s := by
  cases params? with
  | none => rfl
  | some params => simp [renditions, Style.run, Style.step, apply, edits]

theorem flatMap_codesOf (params? : Option Text) :
    params?.toList.flatMap codesOf =
      (Cursor.before (params?.toList.flatMap (Text.fields ';'))).codes.map Prod.fst := by
  cases params? with
  | none => simp [Cursor.codes_nil]
  | some params => simp [codesOf, Cursor.start_eq]

/-- A turn acts as its edits do, whatever stands before it and behind it. -/
theorem actsAs_of_turn (hp : ∀ p ∈ p?, SelfContained p) {operands : List Text} {es : List Edit}
    (hsep : ∀ t ∈ field :: operands, (';' : CodePoint) ∉ t)
    (hturn : Turn field (operands ++ q?.toList.flatMap (Text.fields ';')) es
      (q?.toList.flatMap (Text.fields ';'))) :
    ActsAs p? q? (field :: operands) (applyEdits es) := by
  have hfields : Text.fields ';' (between p? q? (field :: operands)) =
      p?.toList.flatMap (Text.fields ';') ++
        (field :: operands ++ q?.toList.flatMap (Text.fields ';')) :=
    fields_between (by simp) hsep
  have hcomplete := isComplete_flatMap_fields hp
  constructor
  · intro s
    rw [Style.attempt_eq]
    refine congrArg Except.ok ?_
    have hrun : s.run [.rendition (between p? q? (field :: operands))] =
        applyEdits (fieldEdits (Text.fields ';' (between p? q? (field :: operands)))) s := rfl
    rw [hrun, hfields, fieldEdits_append hcomplete, List.cons_append, hturn.fieldEdits_eq,
      Cursor.applyEdits_append, Cursor.applyEdits_append, run_renditions, run_renditions]
  · rw [codesOf, Cursor.start_eq, hfields, codesOf_append hcomplete, List.cons_append,
      hturn.codes_eq, flatMap_codesOf, flatMap_codesOf]
    simp

/-! ### Extended colours -/

/-- The field that an extended colour of the layer begins with. -/
def Layer.code : Layer → Text
  | .foreground => "38".toText
  | .background => "48".toText

/-- The layer set to a colour, and nothing else changed. -/
def Layer.paint (layer : Layer) (c : Color) (s : Style) : Style :=
  match layer with
  | .foreground => { s with foreground := some c }
  | .background => { s with background := some c }

/-- The field reads as a number from 0 to 255. -/
def IsOctet (field : Text) (n : Nat) : Prop := Numeral.readInt? field = some (n : Int) ∧ n ≤ 255

/-- What an extended colour between two strings comes to. -/
structure Aligned (p? q? : Option Text) (layer : Layer) : Prop where
  /-- An index that is an octet sets the layer to the entry of the palette. -/
  index : ∀ {index : Text} {n : Nat}, (';' : CodePoint) ∉ index → IsOctet index n →
    ∃ c, Palette.lookup n = .ok c ∧ ActsAs p? q? [layer.code, indexMode, index] (layer.paint c)
  /-- An index that is none is taken all the same. -/
  noIndex : ∀ {index : Text}, (';' : CodePoint) ∉ index → (¬∃ n, IsOctet index n) →
    ActsAs p? q? [layer.code, indexMode, index] id
  /-- Three channels that are octets set the layer to their colour. -/
  channels : ∀ {red green blue : Text} {r g b : Nat}, (';' : CodePoint) ∉ red →
    (';' : CodePoint) ∉ green → (';' : CodePoint) ∉ blue →
    IsOctet red r → IsOctet green g → IsOctet blue b →
      ActsAs p? q? [layer.code, channelMode, red, green, blue]
        (layer.paint ⟨r, g, b, .direct, none⟩)
  /-- If one of the channels is none, all three are taken all the same. -/
  noChannels : ∀ {red green blue : Text}, (';' : CodePoint) ∉ red → (';' : CodePoint) ∉ green →
    (';' : CodePoint) ∉ blue →
    (¬∃ r g b, IsOctet red r ∧ IsOctet green g ∧ IsOctet blue b) →
      ActsAs p? q? [layer.code, channelMode, red, green, blue] id
  /-- Any other mode is taken alone. -/
  otherMode : ∀ {mode : Text}, (';' : CodePoint) ∉ mode → mode ≠ indexMode → mode ≠ channelMode →
    ActsAs p? q? [layer.code, mode] id
  /-- With fewer than three fields behind it, mode 2 takes none of them. -/
  tooFew : (∀ q ∈ q?, (Text.fields ';' q).length < 3) →
    ActsAs p? q? [layer.code, channelMode] id

theorem ofField_code (layer : Layer) : Code.ofField layer.code = .extended layer := by
  cases layer <;> rfl

theorem not_mem_code (layer : Layer) : (';' : CodePoint) ∉ layer.code := by
  cases layer <;> decide

theorem applyEdits_colorEdits_some (layer : Layer) (c : Color) :
    applyEdits (colorEdits layer (some c)) = layer.paint c := by
  funext s
  cases layer <;> rfl

theorem applyEdits_colorEdits_none (layer : Layer) :
    applyEdits (colorEdits layer none) = id := rfl

theorem octet?_of_isOctet {n : Nat} (h : IsOctet field n) :
    octet? field = some ⟨n, Nat.lt_succ_of_le h.2⟩ := by
  obtain ⟨hread, hle⟩ := h
  have hrange : (0 : Int) ≤ n ∧ (n : Int) ≤ 255 := by omega
  unfold octet?
  simp only [hread, dif_pos hrange, Int.toNat_natCast]

theorem isOctet_of_octet? {i : Fin 256} (h : octet? field = some i) : IsOctet field i.val := by
  unfold octet? at h
  split at h
  · cases h
  · rename_i n hread
    split at h
    · rename_i hrange
      cases h
      exact ⟨by rw [hread, Int.toNat_of_nonneg hrange.1], by simp only; omega⟩
    · cases h

theorem octet?_eq_none (h : ¬∃ n, IsOctet field n) : octet? field = none := by
  cases hoctet : octet? field with
  | none => rfl
  | some i => exact absurd ⟨i.val, isOctet_of_octet? hoctet⟩ h

theorem directColor?_eq_none {red green blue : Text}
    (h : ¬∃ r g b, IsOctet red r ∧ IsOctet green g ∧ IsOctet blue b) :
    directColor? red green blue = none := by
  unfold directColor?
  split
  · rename_i r g b hred hgreen hblue
    exact absurd ⟨r, g, b, isOctet_of_octet? hred, isOctet_of_octet? hgreen,
      isOctet_of_octet? hblue⟩ h
  · rfl

theorem actsAs_index (hp : ∀ p ∈ p?, SelfContained p) (layer : Layer) {index : Text}
    (hindex : (';' : CodePoint) ∉ index) :
    ActsAs p? q? [layer.code, indexMode, index]
      (applyEdits (colorEdits layer (paletteColor? index))) := by
  refine actsAs_of_turn hp ?_ (.index (ofField_code layer) index _)
  have hmode : (';' : CodePoint) ∉ indexMode := by decide
  simp [not_mem_code, hmode, hindex]

theorem actsAs_channels (hp : ∀ p ∈ p?, SelfContained p) (layer : Layer) {red green blue : Text}
    (hred : (';' : CodePoint) ∉ red) (hgreen : (';' : CodePoint) ∉ green)
    (hblue : (';' : CodePoint) ∉ blue) :
    ActsAs p? q? [layer.code, channelMode, red, green, blue]
      (applyEdits (colorEdits layer (directColor? red green blue))) := by
  refine actsAs_of_turn hp ?_ (.channels (ofField_code layer) red green blue _)
  have hmode : (';' : CodePoint) ∉ channelMode := by decide
  simp [not_mem_code, hmode, hred, hgreen, hblue]

/--
**An extended colour takes its operands and acts at once or not at all,** between strings of which
the first is self-contained or missing and the second is any, or missing.
-/
theorem aligned_of_selfContained (hp : ∀ p ∈ p?, SelfContained p) (q? : Option Text)
    (layer : Layer) : Aligned p? q? layer := by
  constructor
  case index =>
    intro index n hindex hoctet
    refine ⟨Palette.color ⟨n, Nat.lt_succ_of_le hoctet.2⟩, ?_, ?_⟩
    · have hle := hoctet.2
      exact lookup_octet (by omega)
    · have hacts : ActsAs p? q? _ _ := actsAs_index hp layer hindex
      rwa [paletteColor?, octet?_of_isOctet hoctet, Option.map_some,
        applyEdits_colorEdits_some] at hacts
  case noIndex =>
    intro index hindex hoctet
    have hacts : ActsAs p? q? _ _ := actsAs_index hp layer hindex
    rwa [paletteColor?, octet?_eq_none hoctet, Option.map_none,
      applyEdits_colorEdits_none] at hacts
  case channels =>
    intro red green blue r g b hred hgreen hblue hr hg hb
    have hacts : ActsAs p? q? _ _ := actsAs_channels hp layer hred hgreen hblue
    simp only [directColor?, octet?_of_isOctet hr, octet?_of_isOctet hg, octet?_of_isOctet hb,
      applyEdits_colorEdits_some] at hacts
    exact hacts
  case noChannels =>
    intro red green blue hred hgreen hblue hoctets
    have hacts : ActsAs p? q? _ _ := actsAs_channels hp layer hred hgreen hblue
    rwa [directColor?_eq_none hoctets, applyEdits_colorEdits_none] at hacts
  case otherMode =>
    intro mode hmode hindex hchannel
    show ActsAs p? q? [layer.code, mode] (applyEdits [])
    refine actsAs_of_turn hp ?_ (.otherMode (ofField_code layer) hindex hchannel _)
    simp [not_mem_code, hmode]
  case tooFew =>
    intro hfew
    have hshort : (q?.toList.flatMap (Text.fields ';')).length < 3 := by
      cases q? with
      | none => simp
      | some q => simpa using hfew q rfl
    have hmode : (';' : CodePoint) ∉ channelMode := by decide
    show ActsAs p? q? [layer.code, channelMode] (applyEdits [])
    refine actsAs_of_turn hp ?_ (.noChannels (ofField_code layer) hshort)
    simp [not_mem_code, hmode]

/-- An index that is missing changes nothing, and the 4 behind it is the code for underlining. -/
theorem attempt_missing_index :
    SelfContained "1;48;5;7".toText ∧
      Style.plain.attempt [.rendition "1;48;5;7;38;5;;4".toText] =
        .ok { bold := true, underline := true, background := some (Palette.color 7) } := by
  have hself : SelfContained "1;48;5;7".toText := by
    rw [selfContained_iff]
    decide +kernel
  have hp : ∀ p ∈ some "1;48;5;7".toText, SelfContained p := by
    rintro _ ⟨⟩
    exact hself
  have hmissing : ¬∃ n, IsOctet [] n := fun ⟨_, hread, _⟩ => nomatch hread
  have haligned := aligned_of_selfContained hp (some "4".toText) .foreground
  have hacts := haligned.noIndex List.not_mem_nil hmissing
  have hparams : between (some "1;48;5;7".toText) (some "4".toText)
      [Layer.foreground.code, indexMode, []] = "1;48;5;7;38;5;;4".toText := by decide +kernel
  have hstyle := hacts.style .plain
  rw [hparams] at hstyle
  exact ⟨hself, hstyle.trans (congrArg Except.ok (by decide +kernel))⟩

end Sgr

end TerminalMarkup
