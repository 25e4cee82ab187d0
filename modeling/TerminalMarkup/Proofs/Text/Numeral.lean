/-
How ASCII digits are read.

A text of ASCII digits has no blanks to lose, no sign and no joints, so what is read is the
decimal number that it spells, and leading zeros have no part in that.  They have a part in
the length, and beyond the limit of digits nothing is read: there the number is lost, even
if it is a small one.
-/
import TerminalMarkup.Text.Numeral

namespace TerminalMarkup.Numeral

open Text

variable {c : CodePoint} {t : Text}

/-- The number that decimal digits spell. -/
def decimal (t : Text) : Nat := t.foldl (fun n c => 10 * n + (c.toNat - 0x30)) 0

/-! ### Digits -/

theorem digit?_of_isAsciiDigit (h : isAsciiDigit c = true) : digit? c = some (c.toNat - 0x30) := by
  have hrange : (0x30 ≤ c.toNat && c.toNat < 0x30 + 10) = true := by
    simp only [isAsciiDigit, Bool.and_eq_true, decide_eq_true_eq] at h ⊢
    omega
  have hzero : digitZeros.find? (fun z => z ≤ c.toNat && c.toNat < z + 10) = some 0x30 :=
    List.find?_cons_of_pos hrange
  simp only [digit?, hzero, Option.map_some]

theorem isBlank_of_isAsciiDigit (h : isAsciiDigit c = true) : isBlank c = false := by
  simp only [isAsciiDigit, Bool.and_eq_true, decide_eq_true_eq] at h
  simp [isBlank]
  omega

theorem not_isAsciiDigit_minus : isAsciiDigit '-' = false := by decide

theorem not_isAsciiDigit_plus : isAsciiDigit '+' = false := by decide

theorem not_isAsciiDigit_joint : isAsciiDigit '_' = false := by decide

/-! ### Texts of digits -/

theorem dropWhile_isBlank (h : ∀ c ∈ t, isAsciiDigit c = true) : t.dropWhile isBlank = t := by
  cases t with
  | nil => rfl
  | cons c t =>
      have hblank := isBlank_of_isAsciiDigit (h c List.mem_cons_self)
      exact List.dropWhile_cons_of_neg (by simp [hblank])

theorem trim_digits (h : ∀ c ∈ t, isAsciiDigit c = true) : trim t = t := by
  have hreverse : ∀ c ∈ t.reverse, isAsciiDigit c = true := fun c hc => h c (List.mem_reverse.mp hc)
  rw [trim, dropWhile_isBlank h, dropWhile_isBlank hreverse, List.reverse_reverse]

theorem splitSign_digits (h : ∀ c ∈ t, isAsciiDigit c = true) : splitSign t = (false, t) := by
  unfold splitSign
  split
  · have hminus := h '-' List.mem_cons_self
    simp [not_isAsciiDigit_minus] at hminus
  · have hplus := h '+' List.mem_cons_self
    simp [not_isAsciiDigit_plus] at hplus
  · rfl

/-- The induction is along the digits; none of them is a joint. -/
theorem digitRun?_digits (h : ∀ c ∈ t, isAsciiDigit c = true) (hne : t ≠ []) :
    digitRun? t = some (t.map fun c => c.toNat - 0x30) := by
  induction t with
  | nil => exact absurd rfl hne
  | cons c t ih =>
      have hdigit := digit?_of_isAsciiDigit (h c List.mem_cons_self)
      have hrest : ∀ d ∈ t, isAsciiDigit d = true := fun d hd => h d (List.mem_cons_of_mem c hd)
      cases t with
      | nil => simp [digitRun?, hdigit]
      | cons next t =>
          have hjoint : next ≠ '_' := by
            intro heq
            have hnext := hrest next List.mem_cons_self
            rw [heq, not_isAsciiDigit_joint] at hnext
            cases hnext
          rw [digitRun?.eq_def]
          simp [hdigit, ih hrest (List.cons_ne_nil next t)]

theorem value_digits (t : Text) : value (t.map fun c => c.toNat - 0x30) = decimal t := by
  rw [value, List.foldl_map]
  rfl

/-- **Digits within the limit read as the number that they spell; beyond it they do not read.** -/
theorem readInt?_digits (h : ∀ c ∈ t, isAsciiDigit c = true) (hne : t ≠ []) :
    readInt? t = if t.length ≤ digitLimit then some (decimal t : Int) else none := by
  rw [readInt?, trim_digits h, splitSign_digits h]
  simp only [digitRun?_digits h hne, List.length_map, value_digits, Bool.false_eq_true, if_false]

end TerminalMarkup.Numeral
