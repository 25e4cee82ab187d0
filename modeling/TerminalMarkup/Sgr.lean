/-
Select Graphic Rendition: parameter strings as edits of a style.

A parameter string is a list of fields between semicolons.  Read from left to
right, a field is a code, or an operand of the code before it; only 38 and 48
have operands.  `edits` makes that reading once and for all, without looking at
any style: what is left of the string is a list of edits, each of which writes
some attributes of the style and leaves the others alone.  Everything the string
does is done by applying those edits in turn.
-/
import TerminalMarkup.Text.Numeral
import TerminalMarkup.Palette
import TerminalMarkup.Style

namespace TerminalMarkup.Sgr

open Text

/-! ### Edits -/

/-- One change to a style. -/
inductive Edit where
  /-- Back to the plain style. -/
  | reset
  | bold (on : Bool)
  | faint
  | italic (on : Bool)
  | underline (on : Bool)
  /-- Neither bold nor faint. -/
  | normalIntensity
  | foreground (c : Option Color)
  | background (c : Option Color)
  deriving DecidableEq, Repr

/-- The style after one edit. -/
def Edit.apply : Edit → Style → Style
  | .reset, _ => .plain
  | .bold on, s => { s with bold := on }
  | .faint, s => { s with faint := true }
  | .italic on, s => { s with italic := on }
  | .underline on, s => { s with underline := on }
  | .normalIntensity, s => { s with bold := false, faint := false }
  | .foreground c, s => { s with foreground := c }
  | .background c, s => { s with background := c }

/-! ### Codes -/

/-- The two places that an extended colour can go to. -/
inductive Layer where
  | foreground
  | background
  deriving DecidableEq, Repr

/-- The edit that sets a layer to a colour. -/
def Layer.edit : Layer → Color → Edit
  | .foreground, c => .foreground (some c)
  | .background, c => .background (some c)

/-- What a field means where a code is expected. -/
inductive Code where
  | edit (e : Edit)
  /-- The code is followed by a colour mode and its operands. -/
  | extended (layer : Layer)
  | unknown
  deriving DecidableEq, Repr

/-- The code of a number. -/
def Code.ofInt (n : Int) : Code :=
  match n with
  | 0 => .edit .reset
  | 1 => .edit (.bold true)
  | 2 => .edit .faint
  | 3 => .edit (.italic true)
  | 4 => .edit (.underline true)
  | 21 => .edit (.bold false)
  | 22 => .edit .normalIntensity
  | 23 => .edit (.italic false)
  | 24 => .edit (.underline false)
  | 38 => .extended .foreground
  | 39 => .edit (.foreground none)
  | 48 => .extended .background
  | 49 => .edit (.background none)
  | n =>
    if h : 30 ≤ n ∧ n ≤ 37 then
      .edit (.foreground (some (Palette.normal ⟨(n - 30).toNat, by omega⟩)))
    else if h : 40 ≤ n ∧ n ≤ 47 then
      .edit (.background (some (Palette.normal ⟨(n - 40).toNat, by omega⟩)))
    else if h : 90 ≤ n ∧ n ≤ 97 then
      .edit (.foreground (some (Palette.bright ⟨(n - 90).toNat, by omega⟩)))
    else if h : 100 ≤ n ∧ n ≤ 107 then
      .edit (.background (some (Palette.bright ⟨(n - 100).toNat, by omega⟩)))
    else .unknown

/-- The code of a field; what is no numeral, the empty field among others, resets. -/
def Code.ofField (field : Text) : Code :=
  match Numeral.readInt? field with
  | none => .edit .reset
  | some n => .ofInt n

/-! ### Operands -/

/-- A number from 0 to 255. -/
def octet? (field : Text) : Option (Fin 256) :=
  match Numeral.readInt? field with
  | none => none
  | some n => if h : 0 ≤ n ∧ n ≤ 255 then some ⟨n.toNat, by omega⟩ else none

/-- The palette entry that an index names. -/
def paletteColor? (index : Text) : Option Color := (octet? index).map Palette.color

/-- The colour with the given channels. -/
def directColor? (red green blue : Text) : Option Color :=
  match octet? red, octet? green, octet? blue with
  | some r, some g, some b => some ⟨r, g, b, .direct, none⟩
  | _, _, _ => none

/-- The edit of an extended colour; a colour that is not well formed edits nothing. -/
def colorEdits (layer : Layer) (c : Option Color) : List Edit := (c.map layer.edit).toList

/-- The mode that takes a palette index. -/
def indexMode : Text := ['5']

/-- The mode that takes three channels. -/
def channelMode : Text := ['2']

/-! ### Parameter strings -/

/--
The edits of a list of fields.

After 38 or 48 the next field is the mode.  Mode 5 takes one more field if there
is one, mode 2 takes three more if there are three, and no other field is an
operand: whatever follows is read as codes again.
-/
def fieldEdits : List Text → List Edit
  | [] => []
  | field :: rest =>
    match Code.ofField field with
    | .unknown => fieldEdits rest
    | .edit e => e :: fieldEdits rest
    | .extended layer =>
      match rest with
      | [] => []
      | mode :: rest =>
        if mode = indexMode then
          match rest with
          | [] => []
          | index :: rest => colorEdits layer (paletteColor? index) ++ fieldEdits rest
        else if mode = channelMode then
          match rest with
          | red :: green :: blue :: rest =>
            colorEdits layer (directColor? red green blue) ++ fieldEdits rest
          | rest => fieldEdits rest
        else fieldEdits rest

/-- The edits of a parameter string. -/
def edits (params : Text) : List Edit := fieldEdits (fields ';' params)

/--
Whether the fields have all the operands that their codes call for, so that no field
that follows them could become one.
-/
def isComplete : List Text → Bool
  | [] => true
  | field :: rest =>
    match Code.ofField field with
    | .extended _ =>
      match rest with
      | [] => false
      | mode :: rest =>
        if mode = indexMode then
          match rest with
          | [] => false
          | _ :: rest => isComplete rest
        else if mode = channelMode then
          match rest with
          | _ :: _ :: _ :: rest => isComplete rest
          | _ => false
        else isComplete rest
    | _ => isComplete rest

/-- The style after edits, first edit first. -/
def applyEdits (es : List Edit) (s : Style) : Style := es.foldl (fun s e => e.apply s) s

/-- The style after a parameter string. -/
def apply (params : Text) (s : Style) : Style := applyEdits (edits params) s

end TerminalMarkup.Sgr

namespace TerminalMarkup.Style

/-! ### Changes -/

/-- A change of the style in force. -/
inductive Step where
  | rendition (params : Text)
  | reset
  deriving DecidableEq, Repr

/-- The style after a change. -/
def step (s : Style) : Step → Style
  | .rendition params => Sgr.apply params s
  | .reset => .plain

/-- The style after changes in turn. -/
def run (s : Style) (steps : List Step) : Style := steps.foldl step s

end TerminalMarkup.Style
