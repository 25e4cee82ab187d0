/-
Text as a list of code points.

Everything this library reads is cut at positions between code points, so text is the
list itself: lengths and positions count code points and nothing has to be converted
before it can be reasoned about.  A code point is a character or a surrogate.  No
encoding has a surrogate that stands alone, but JSON has a way to write one.

The file also holds the few writers of numbers that several formats share, and the
cutting of a text into pieces of one size.
-/

namespace TerminalMarkup

/-- A code point: a character, or one of the 2048 surrogates. -/
inductive CodePoint where
  | scalar (c : Char)
  | surrogate (k : Fin 0x800)
  deriving DecidableEq, Repr

/-- Text is the list of its code points. -/
abbrev Text := List CodePoint

/-- Characters as text. -/
def Text.ofChars (chars : List Char) : Text := chars.map .scalar

/-- The characters of a text, if there are no surrogates in it. -/
def Text.chars? : Text → Option (List Char)
  | [] => some []
  | .scalar c :: rest => (chars? rest).map (c :: ·)
  | .surrogate _ :: _ => none

end TerminalMarkup

/-- The characters of a string as text. -/
def String.toText (s : String) : TerminalMarkup.Text := .ofChars s.toList

namespace TerminalMarkup

instance : Coe Char CodePoint := ⟨.scalar⟩

namespace CodePoint

/-- Whether the code point is a character. -/
def isScalar : CodePoint → Bool
  | .scalar _ => true
  | .surrogate _ => false

/-- The number of the code point. -/
def toNat : CodePoint → Nat
  | .scalar c => c.toNat
  | .surrogate k => 0xd800 + k

/-- The code point of a number below `0x110000`. -/
def ofNat (n : Nat) : CodePoint :=
  if h : 0xd800 ≤ n ∧ n < 0xe000 then .surrogate ⟨n - 0xd800, by omega⟩ else .scalar (Char.ofNat n)

instance : LE CodePoint := ⟨fun c d => c.toNat ≤ d.toNat⟩

instance (c d : CodePoint) : Decidable (c ≤ d) := Nat.decLe c.toNat d.toNat

/-- The small letter for an ASCII capital, and every other code point itself. -/
def toLower : CodePoint → CodePoint
  | .scalar c => c.toLower
  | .surrogate k => .surrogate k

theorem toNat_not_surrogate (c : Char) : c.toNat < 0xd800 ∨ 0xdfff < c.toNat := by
  rcases c.valid with h | ⟨h, -⟩
  · exact Or.inl h
  · exact Or.inr h

theorem toNat_lt (c : CodePoint) : c.toNat < 0x110000 := by
  cases c with
  | scalar c =>
    rw [toNat]
    rcases c.valid with h | ⟨-, h⟩
    · exact Nat.lt_trans h (by decide)
    · exact h
  | surrogate k =>
    have := k.isLt
    rw [toNat]
    omega

theorem isScalar_of_toNat_lt {c : CodePoint} (h : c.toNat < 0xd800) : c.isScalar = true := by
  cases c with
  | scalar c => rfl
  | surrogate k =>
    rw [toNat] at h
    omega

theorem ofNat_toNat (c : CodePoint) : ofNat c.toNat = c := by
  cases c with
  | scalar c =>
    have hnot : ¬(0xd800 ≤ c.toNat ∧ c.toNat < 0xe000) := by
      have := toNat_not_surrogate c
      omega
    rw [toNat, ofNat, dif_neg hnot, Char.ofNat_toNat]
  | surrogate k =>
    have hin : 0xd800 ≤ 0xd800 + k.val ∧ 0xd800 + k.val < 0xe000 := by
      have := k.isLt
      omega
    simp [toNat, ofNat, hin]

theorem toNat_ofNat {n : Nat} (h : n < 0x110000) : (ofNat n).toNat = n := by
  unfold ofNat
  split
  · rename_i hin
    exact Nat.add_sub_cancel' hin.1
  · have hvalid : n.isValidChar := by
      rw [Nat.isValidChar]
      omega
    rw [toNat, Char.toNat, Char.ofNat, dif_pos hvalid]
    rfl

theorem toNat_inj {c d : CodePoint} : c.toNat = d.toNat ↔ c = d := by
  refine ⟨fun h => ?_, congrArg toNat⟩
  rw [← ofNat_toNat c, h, ofNat_toNat]

end CodePoint

/-- The character that introduces every escape sequence. -/
def esc : CodePoint := '\x1b'

/-- The bell, which may close an operating system command. -/
def bel : CodePoint := '\x07'

namespace Text

/-- The decimal digits of a natural number. -/
def ofNat (n : Nat) : Text := .ofChars (Nat.toDigits 10 n)

/-- The decimal digits of an integer, after a minus sign when it is negative. -/
def ofInt : Int → Text
  | .ofNat n => ofNat n
  | .negSucc n => '-' :: ofNat (n + 1)

/-- Lower-case hexadecimal digits of `n`, with leading zeros up to `width`. -/
def hex (width n : Nat) : Text :=
  let digits : Text := .ofChars (Nat.toDigits 16 n)
  List.replicate (width - digits.length) (.scalar '0') ++ digits

/--
Consecutive pieces of `size` characters; the last one may be shorter and none is
empty.  A size of zero counts as one.
-/
def pieces (size : Nat) : Text → List Text
  | [] => []
  | c :: rest => (c :: rest.take (size - 1)) :: pieces size (rest.drop (size - 1))
termination_by t => t.length
decreasing_by simp only [List.length_drop, List.length_cons]; omega

/-- The text before the first `sep` and the text after it, if there is one. -/
def cutAt? (sep : CodePoint) : Text → Option (Text × Text)
  | [] => none
  | c :: rest =>
    if c = sep then some ([], rest) else (cutAt? sep rest).map fun (a, b) => (c :: a, b)

/-- The fields between the separators; there is always one more field than separators. -/
def fields (sep : CodePoint) : Text → List Text
  | [] => [[]]
  | c :: rest =>
    if c = sep then [] :: fields sep rest
    else match fields sep rest with
      | [] => [[c]]
      | field :: more => (c :: field) :: more

/-- What follows `front`, if the text begins with it. -/
def after? : Text → Text → Option Text
  | [], t => some t
  | _ :: _, [] => none
  | f :: front, c :: rest => if f = c then after? front rest else none

/-- An optional character at the front, and the text after it. -/
def takeOne (p : CodePoint → Bool) : Text → Option CodePoint × Text
  | [] => (none, [])
  | c :: rest => if p c then (some c, rest) else (none, c :: rest)

/-- Whether a text does not stand after another in dictionary order, letters by code point. -/
def notAfter : Text → Text → Bool
  | [], _ => true
  | _ :: _, [] => false
  | a :: s, b :: t => a.toNat < b.toNat || (a == b && notAfter s t)

/-! ### Small facts -/

theorem chars?_eq_some {t : Text} {chars : List Char} :
    t.chars? = some chars ↔ t = ofChars chars := by
  induction t generalizing chars with
  | nil => cases chars <;> simp [chars?, ofChars]
  | cons c rest ih =>
    cases c with
    | surrogate k => cases chars <;> simp [chars?, ofChars]
    | scalar c =>
      cases chars with
      | nil => simp [chars?, ofChars]
      | cons d chars =>
        simp only [ofChars] at ih
        simp only [chars?, Option.map_eq_some_iff, ih, ofChars, List.map_cons, List.cons.injEq,
          CodePoint.scalar.injEq]
        constructor
        · rintro ⟨_, rfl, rfl, rfl⟩
          exact ⟨rfl, rfl⟩
        · rintro ⟨rfl, rfl⟩
          exact ⟨chars, rfl, rfl, rfl⟩

theorem isSome_chars?_iff {t : Text} : t.chars?.isSome = true ↔ ∀ c ∈ t, c.isScalar = true := by
  induction t with
  | nil => simp [chars?]
  | cons c rest ih => cases c <;> simp [chars?, CodePoint.isScalar, ih]

theorem fields_ne_nil (sep : CodePoint) (t : Text) : fields sep t ≠ [] := by
  cases t with
  | nil => simp [fields]
  | cons c rest =>
    rw [fields]
    split
    · simp
    · split <;> simp

theorem flatten_pieces (size : Nat) (t : Text) : (pieces size t).flatten = t := by
  fun_induction pieces size t with
  | case1 => rfl
  | case2 c rest ih => simp [ih]

theorem after?_eq_some {front t rest : Text} : after? front t = some rest ↔ t = front ++ rest := by
  fun_induction after? front t with
  | case1 => simp
  | case2 => simp
  | case3 front c tail ih => simp [ih]
  | case4 f front c tail h => simp [Ne.symm h]

theorem takeOne_append (p : CodePoint → Bool) (t : Text) :
    (takeOne p t).1.toList ++ (takeOne p t).2 = t := by
  cases t with
  | nil => rfl
  | cons c rest =>
    rw [takeOne]
    split <;> rfl

end Text

end TerminalMarkup
