/-
Parameter strings under a cursor.

The fields of a parameter string can also be taken one by one, by whoever needs the
next of them: the loop over the codes takes a code, and within its turn an extended
colour takes its operands.  A cursor goes from one to the other and keeps count of what
is left, and it is by this count that a colour is found to be complete.  Colours are
asked of the palette by number.

Neither of the two is certain to be there.  A field may be asked for where none is left,
and a colour under a number that the palette does not have; the reading breaks off then.
-/
import TerminalMarkup.Sgr

namespace TerminalMarkup.Sgr

/-- Why a reading breaks off. -/
inductive Fault where
  /-- A field was asked for and none was left. -/
  | noField
  /-- A colour was asked for and the palette has none. -/
  | noColor (fault : Palette.Fault)
  deriving DecidableEq, Repr

/-! ### Colours by number -/

/-- The palette entry of a number. -/
def entry (n : Int) : Except Fault Color := (Palette.lookup n).mapError .noColor

/-- The palette entry that an index names, if the index is an octet. -/
def indexedColor (index : Text) : Except Fault (Option Color) :=
  match Numeral.readInt? index with
  | none => .ok none
  | some n => if 0 ≤ n ∧ n ≤ 255 then (entry n).map some else .ok none

/-- The code of a number; for the codes of the named colours the palette is asked. -/
def codeOf (n : Int) : Except Fault Code :=
  if 30 ≤ n ∧ n ≤ 37 then (entry (n - 30)).map fun c => .edit (.foreground (some c))
  else if 40 ≤ n ∧ n ≤ 47 then (entry (n - 40)).map fun c => .edit (.background (some c))
  else if 90 ≤ n ∧ n ≤ 97 then (entry (8 + (n - 90))).map fun c => .edit (.foreground (some c))
  else if 100 ≤ n ∧ n ≤ 107 then (entry (8 + (n - 100))).map fun c => .edit (.background (some c))
  else .ok (Code.ofInt n)

/-! ### The cursor -/

/-- The fields ahead, and how many are left by count. -/
structure Cursor where
  ahead : List Text
  left : Nat
  deriving DecidableEq, Repr

namespace Cursor

/-- The cursor in front of a parameter string. -/
def start (params : Text) : Cursor := ⟨Text.fields ';' params, params.count (.scalar ';') + 1⟩

/-- The next field, and the cursor behind it. -/
def next (c : Cursor) : Except Fault (Text × Cursor) :=
  match c.ahead with
  | [] => .error .noField
  | field :: ahead => .ok (field, ⟨ahead, c.left - 1⟩)

/-- The next fields in turn, and the cursor behind them. -/
def take : Nat → Cursor → Except Fault (List Text × Cursor)
  | 0, c => .ok ([], c)
  | n + 1, c =>
    match c.next with
    | .error e => .error e
    | .ok (field, c) =>
      match take n c with
      | .error e => .error e
      | .ok (more, c) => .ok (field :: more, c)

/-- The colour of an index, and the cursor behind it. -/
def takeIndexed (c : Cursor) : Except Fault (Option Color × Cursor) :=
  match c.next with
  | .error e => .error e
  | .ok (index, c) => (indexedColor index).map (·, c)

/-- The colour of three channels, and the cursor behind them. -/
def takeDirect (c : Cursor) : Except Fault (Option Color × Cursor) :=
  match c.take 3 with
  | .error e => .error e
  | .ok ([red, green, blue], c) => .ok (directColor? red green blue, c)
  | .ok _ => .error .noField

/-- An extended colour, if it is well formed, and the cursor behind its mode and operands.  An
operand is taken only if the count says that all of them are there. -/
def takeExtended (c : Cursor) : Except Fault (Option Color × Cursor) :=
  if c.left = 0 then .ok (none, c)
  else
    match c.next with
    | .error e => .error e
    | .ok (mode, c) =>
      if mode = indexMode ∧ c.left ≠ 0 then c.takeIndexed
      else if mode = channelMode ∧ 3 ≤ c.left then c.takeDirect
      else .ok (none, c)

theorem length_next_lt {c c' : Cursor} {field : Text} (h : c.next = .ok (field, c')) :
    c'.ahead.length < c.ahead.length := by
  unfold next at h
  split at h
  · cases h
  · rename_i ahead hahead
    cases h
    rw [hahead]
    exact Nat.lt_succ_self _

theorem length_take_le {n : Nat} {c c' : Cursor} {fields : List Text}
    (h : c.take n = .ok (fields, c')) : c'.ahead.length ≤ c.ahead.length := by
  induction n generalizing c fields with
  | zero =>
    cases h
    exact Nat.le_refl _
  | succ n ih =>
    rw [take] at h
    split at h
    · cases h
    rename_i field c₁ hnext
    split at h
    · cases h
    · rename_i more c₂ htake
      cases h
      exact Nat.le_trans (ih htake) (Nat.le_of_lt (length_next_lt hnext))

theorem length_takeIndexed_le {c c' : Cursor} {color : Option Color}
    (h : c.takeIndexed = .ok (color, c')) : c'.ahead.length ≤ c.ahead.length := by
  unfold takeIndexed at h
  split at h
  · cases h
  rename_i index c₁ hnext
  cases hcolor : indexedColor index with
  | error e =>
    rw [hcolor] at h
    cases h
  | ok found =>
    rw [hcolor] at h
    cases h
    exact Nat.le_of_lt (length_next_lt hnext)

theorem length_takeDirect_le {c c' : Cursor} {color : Option Color}
    (h : c.takeDirect = .ok (color, c')) : c'.ahead.length ≤ c.ahead.length := by
  unfold takeDirect at h
  split at h
  · cases h
  · rename_i htake
    cases h
    exact length_take_le htake
  · cases h

theorem length_takeExtended_le {c c' : Cursor} {color : Option Color}
    (h : c.takeExtended = .ok (color, c')) : c'.ahead.length ≤ c.ahead.length := by
  unfold takeExtended at h
  split at h
  · cases h
    exact Nat.le_refl _
  split at h
  · cases h
  rename_i mode c₁ hnext
  have hlt := length_next_lt hnext
  split at h
  · exact Nat.le_trans (length_takeIndexed_le h) (Nat.le_of_lt hlt)
  split at h
  · exact Nat.le_trans (length_takeDirect_le h) (Nat.le_of_lt hlt)
  · cases h
    exact Nat.le_of_lt hlt

/-- The style after the fields ahead.  Only the loop over the codes may come to the end of them. -/
def apply (c : Cursor) (s : Style) : Except Fault Style :=
  match _hnext : c.next with
  | .error _ => .ok s
  | .ok (field, c) =>
    match Numeral.readInt? field with
    | none => c.apply .plain
    | some n =>
      match codeOf n with
      | .error e => .error e
      | .ok (.edit e) => c.apply (e.apply s)
      | .ok .unknown => c.apply s
      | .ok (.extended layer) =>
        match _hextended : c.takeExtended with
        | .error e => .error e
        | .ok (color, c) => c.apply (applyEdits (colorEdits layer color) s)
termination_by c.ahead.length
decreasing_by
  · exact length_next_lt _hnext
  · exact length_next_lt _hnext
  · exact length_next_lt _hnext
  · exact Nat.lt_of_le_of_lt (length_takeExtended_le _hextended) (length_next_lt _hnext)

end Cursor

end TerminalMarkup.Sgr

namespace TerminalMarkup.Style

/-- The style after changes in turn, made under a cursor; nothing if one of them breaks off. -/
def attempt (s : Style) : List Step → Except Sgr.Fault Style
  | [] => .ok s
  | .rendition params :: rest =>
    match (Sgr.Cursor.start params).apply s with
    | .error e => .error e
    | .ok s => attempt s rest
  | .reset :: rest => attempt .plain rest

end TerminalMarkup.Style
