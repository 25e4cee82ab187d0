/-
The palette of 256 colours: sixteen named ones, a 6×6×6 cube and a ramp of greys.

Entries can be looked up by any integer, a negative one counting from the end;
the codes that select colours only ever use indexes below 256, for which `color`
needs no answer for failure.
-/
import TerminalMarkup.Color
import TerminalMarkup.Text.Numeral

namespace TerminalMarkup.Palette

/-- A named colour. -/
def namedColor (stem : String) (red green blue : Nat) : Color :=
  ⟨red, green, blue, .named, some ("ansi-".toText ++ stem.toText)⟩

/-- The named colours: eight normal ones and their eight bright variants. -/
def named : List Color :=
  [namedColor "black" 0 0 0,
   namedColor "red" 187 0 0,
   namedColor "green" 0 187 0,
   namedColor "yellow" 187 187 0,
   namedColor "blue" 0 0 187,
   namedColor "magenta" 187 0 187,
   namedColor "cyan" 0 187 187,
   namedColor "white" 255 255 255,
   namedColor "bright-black" 85 85 85,
   namedColor "bright-red" 255 85 85,
   namedColor "bright-green" 0 255 0,
   namedColor "bright-yellow" 255 255 85,
   namedColor "bright-blue" 85 85 255,
   namedColor "bright-magenta" 255 85 255,
   namedColor "bright-cyan" 85 255 255,
   namedColor "bright-white" 255 255 255]

/-- The six values a channel takes in the cube. -/
def cubeLevels : List Nat := [0, 95, 135, 175, 215, 255]

/-- The cube; blue changes fastest. -/
def cube : List Color :=
  cubeLevels.flatMap fun red => cubeLevels.flatMap fun green => cubeLevels.map fun blue =>
    ⟨red, green, blue, .indexed, none⟩

/-- Twenty-four greys, from 8 in steps of 10. -/
def greys : List Color :=
  (List.range 24).map fun k => ⟨8 + 10 * k, 8 + 10 * k, 8 + 10 * k, .indexed, none⟩

/-- All entries in order. -/
def colors : List Color := named ++ cube ++ greys

theorem length_colors : colors.length = 256 := by decide +kernel

/-- The entry at an index. -/
def color (i : Fin 256) : Color := colors.get (i.cast length_colors.symm)

/-- One of the eight normal colours. -/
def normal (k : Fin 8) : Color := color ⟨k.val, by omega⟩

/-- One of the eight bright colours. -/
def bright (k : Fin 8) : Color := color ⟨8 + k.val, by omega⟩

/-! ### Look-up by any integer -/

/-- Why an index has no entry. -/
inductive Fault where
  /-- The index lies beyond either end. -/
  | outOfRange
  /-- The index is no signed 64-bit number. -/
  | tooWide
  deriving DecidableEq, Repr

/-- The fault in words. -/
def Fault.message : Fault → Text
  | .outOfRange => "tuple index out of range".toText
  | .tooWide => "cannot fit 'int' into an index-sized integer".toText

/-- The entry at `n`, where -1 is the last entry. -/
def lookup (n : Int) : Except Fault Color :=
  if !Numeral.fitsWord n then .error .tooWide
  else
    let k := if n < 0 then n + 256 else n
    if h : 0 ≤ k ∧ k < 256 then .ok (color ⟨k.toNat, by omega⟩) else .error .outOfRange

end TerminalMarkup.Palette
