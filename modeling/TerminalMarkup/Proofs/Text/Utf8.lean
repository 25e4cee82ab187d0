/-
Encoded text decodes to itself, and nothing else decodes at all.

A character is written with one to four bytes, by the size of its code point, and the
continuation bytes hold six bits each.  For every width there is a lemma about the
byte sequence alone: under which bounds on the bits it is one well-formed character.
The bounds that look odd there are the ones that make every other spelling malformed:
a code point is never written longer than it has to be, is no surrogate and is not
beyond the last one.  A character meets them because it is a Unicode scalar value.
-/
import TerminalMarkup.Text.Utf8

namespace TerminalMarkup.Utf8

/-! ### One character -/

/-- The bytes are one well-formed character wherever they stand. -/
def Spells (bytes : List UInt8) (c : Char) : Prop :=
  ∃ b more, bytes = b :: more ∧ ∀ rest, next b (more ++ rest) = (.char c, rest)

/-- A byte is put after the bits that are there. -/
theorem complete_cons {needed low high bits n : Nat} (hn : n < 256) (hlow : low ≤ n)
    (hhigh : n ≤ high) (seen rest : List UInt8) :
    complete (needed + 1) low high bits seen (.ofNat n :: rest)
      = complete needed 0x80 0xbf (64 * bits + (n - 0x80)) (.ofNat n :: seen) rest := by
  have htoNat : (UInt8.ofNat n).toNat = n := UInt8.toNat_ofNat_of_lt' hn
  rw [complete, htoNat, if_pos ⟨hlow, hhigh⟩]

theorem next_of_lead {n needed low high bits : Nat} (hn : n < 256)
    (hlead : lead? n = some (needed, low, high, bits)) (rest : List UInt8) :
    next (.ofNat n) rest = complete needed low high bits [.ofNat n] rest := by
  have htoNat : (UInt8.ofNat n).toNat = n := UInt8.toNat_ofNat_of_lt' hn
  rw [next, htoNat, hlead]

theorem spells_one {n : Nat} (hn : n < 0x80) : Spells [.ofNat n] (.ofNat n) := by
  refine ⟨_, [], rfl, fun rest => ?_⟩
  have hlead : lead? n = some (0, 0, 0, n) := by rw [lead?, if_pos hn]
  rw [next_of_lead (by omega) hlead, complete]
  rfl

theorem spells_two {a b : Nat} (ha : 2 ≤ a) (ha' : a < 0x20) (hb : b < 0x40) :
    Spells [.ofNat (a + 0xc0), .ofNat (b + 0x80)] (.ofNat (64 * a + b)) := by
  refine ⟨_, [_], rfl, fun rest => ?_⟩
  have hlead : lead? (a + 0xc0) = some (1, 0x80, 0xbf, a) := by
    rw [lead?, if_neg (by omega), if_neg (by omega), if_pos (by omega), Nat.add_sub_cancel]
  rw [next_of_lead (by omega) hlead, List.cons_append,
    complete_cons (by omega) (by omega) (by omega), complete, Nat.add_sub_cancel]
  rfl

theorem spells_three {a b c : Nat} (ha : a < 0x10) (hb : b < 0x40) (hc : c < 0x40)
    (hshort : a = 0 → 0x20 ≤ b) (hsurrogate : a = 0xd → b < 0x20) :
    Spells [.ofNat (a + 0xe0), .ofNat (b + 0x80), .ofNat (c + 0x80)]
      (.ofNat (64 * (64 * a + b) + c)) := by
  refine ⟨_, [_, _], rfl, fun rest => ?_⟩
  have hlead : lead? (a + 0xe0) = some (2, if a + 0xe0 = 0xe0 then 0xa0 else 0x80,
      if a + 0xe0 = 0xed then 0x9f else 0xbf, a) := by
    rw [lead?, if_neg (by omega), if_neg (by omega), if_neg (by omega), if_pos (by omega),
      Nat.add_sub_cancel]
  have hlow : (if a + 0xe0 = 0xe0 then 0xa0 else 0x80) ≤ b + 0x80 := by split <;> omega
  have hhigh : b + 0x80 ≤ (if a + 0xe0 = 0xed then 0x9f else 0xbf) := by split <;> omega
  rw [next_of_lead (by omega) hlead, List.cons_append, List.cons_append,
    complete_cons (by omega) hlow hhigh,
    complete_cons (by omega) (by omega) (by omega), complete, Nat.add_sub_cancel,
    Nat.add_sub_cancel]
  rfl

theorem spells_four {a b c d : Nat} (ha : a ≤ 4) (hb : b < 0x40) (hc : c < 0x40) (hd : d < 0x40)
    (hshort : a = 0 → 0x10 ≤ b) (hlast : a = 4 → b < 0x10) :
    Spells [.ofNat (a + 0xf0), .ofNat (b + 0x80), .ofNat (c + 0x80), .ofNat (d + 0x80)]
      (.ofNat (64 * (64 * (64 * a + b) + c) + d)) := by
  refine ⟨_, [_, _, _], rfl, fun rest => ?_⟩
  have hlead : lead? (a + 0xf0) = some (3, if a + 0xf0 = 0xf0 then 0x90 else 0x80,
      if a + 0xf0 = 0xf4 then 0x8f else 0xbf, a) := by
    rw [lead?, if_neg (by omega), if_neg (by omega), if_neg (by omega), if_neg (by omega),
      if_pos (by omega), Nat.add_sub_cancel]
  have hlow : (if a + 0xf0 = 0xf0 then 0x90 else 0x80) ≤ b + 0x80 := by split <;> omega
  have hhigh : b + 0x80 ≤ (if a + 0xf0 = 0xf4 then 0x8f else 0xbf) := by split <;> omega
  rw [next_of_lead (by omega) hlead, List.cons_append, List.cons_append, List.cons_append,
    complete_cons (by omega) hlow hhigh,
    complete_cons (by omega) (by omega) (by omega),
    complete_cons (by omega) (by omega) (by omega), complete, Nat.add_sub_cancel,
    Nat.add_sub_cancel, Nat.add_sub_cancel]
  rfl

/-- The bytes of a character spell it. -/
theorem spells_encodeChar (c : Char) : Spells (String.utf8EncodeChar c) c := by
  have hvalid : c.toNat < 0xd800 ∨ (0xdfff < c.toNat ∧ c.toNat < 0x110000) := c.valid
  have hchar : c = Char.ofNat c.toNat := (Char.ofNat_toNat c).symm
  have hval : c.val.toNat = c.toNat := rfl
  generalize c.toNat = n at *
  subst hchar
  simp only [String.utf8EncodeChar, hval]
  split
  · exact spells_one (by omega)
  split
  · have h : n = 64 * (n / 64 % 32) + n % 64 := by omega
    have := spells_two (a := n / 64 % 32) (b := n % 64) (by omega) (by omega) (by omega)
    rwa [← h] at this
  split
  · have h : n = 64 * (64 * (n / 4096 % 16) + n / 64 % 64) + n % 64 := by omega
    have := spells_three (a := n / 4096 % 16) (b := n / 64 % 64) (c := n % 64) (by omega)
      (by omega) (by omega) (by omega) (by omega)
    rwa [← h] at this
  · have h : n = 64 * (64 * (64 * (n / 262144 % 8) + n / 4096 % 64) + n / 64 % 64) + n % 64 := by
      omega
    have := spells_four (a := n / 262144 % 8) (b := n / 4096 % 64) (c := n / 64 % 64)
      (d := n % 64) (by omega) (by omega) (by omega) (by omega) (by omega) (by omega)
    rwa [← h] at this

/-! ### A text -/

theorem segmentsOnto_encode (done : List Segment) (chars : List Char) :
    segmentsOnto done (encode chars) = done.reverse ++ chars.map .char := by
  induction chars generalizing done with
  | nil => rw [encode, List.flatMap_nil, segmentsOnto, List.map_nil, List.append_nil]
  | cons c rest ih =>
      obtain ⟨b, more, hbytes, hnext⟩ := spells_encodeChar c
      have hencode : encode (c :: rest) = b :: (more ++ encode rest) := by
        rw [encode, List.flatMap_cons, hbytes, List.cons_append]
        rfl
      rw [hencode, segmentsOnto, hnext, ih, List.reverse_cons, List.append_assoc, List.map_cons]
      rfl

theorem firstError?_chars (position : Nat) (chars : List Char) :
    firstError? position (chars.map .char) = none := by
  induction chars generalizing position with
  | nil => rfl
  | cons c rest ih => exact ih _

theorem decode_encode (chars : List Char) : decode (encode chars) = .ok (.ofChars chars) := by
  have hsegments : segments (encode chars) = chars.map .char := by
    rw [segments, segmentsOnto_encode, List.reverse_nil, List.nil_append]
  have hchars : (chars.map Segment.char).map Segment.toChar = chars := by
    rw [List.map_map]
    exact List.map_id chars
  simp only [decode, hsegments, firstError?_chars, hchars]

theorem encode?_eq_some {t : Text} {bytes : List UInt8} :
    encode? t = some bytes ↔ ∃ chars, t = .ofChars chars ∧ encode chars = bytes := by
  simp only [encode?, Option.map_eq_some_iff, Text.chars?_eq_some]

theorem isSome_encode?_iff {t : Text} :
    (encode? t).isSome = true ↔ ∀ c ∈ t, c.isScalar = true := by
  rw [encode?, Option.isSome_map, Text.isSome_chars?_iff]

/-- **A text that has bytes is read from them as it was.** -/
theorem decode_of_encode? {t : Text} {bytes : List UInt8} (h : encode? t = some bytes) :
    decode bytes = .ok t := by
  obtain ⟨chars, rfl, rfl⟩ := encode?_eq_some.mp h
  exact decode_encode chars

/-! ### Well-formed bytes

The other way round: bytes that are one character by the rules are the ones it is written with,
because the bounds on them are just the bounds within which it has that many.
-/

theorem val_ofNat {n : Nat} (h : n.isValidChar) : (Char.ofNat n).val.toNat = n := by
  rw [Char.ofNat, dif_pos h]
  rfl

theorem encodeChar_one {n : Nat} (hn : n < 0x80) :
    String.utf8EncodeChar (.ofNat n) = [.ofNat n] := by
  have hval : (Char.ofNat n).val.toNat = n := val_ofNat (Or.inl (by omega))
  simp only [String.utf8EncodeChar, hval]
  rw [if_pos (by omega)]

theorem encodeChar_two {a b : Nat} (ha : a < 0x20) (hshort : 2 ≤ a) (hb : b < 0x40) :
    String.utf8EncodeChar (.ofNat (64 * a + b)) = [.ofNat (a + 0xc0), .ofNat (b + 0x80)] := by
  have hval : (Char.ofNat (64 * a + b)).val.toNat = 64 * a + b := val_ofNat (Or.inl (by omega))
  have hfirst : (64 * a + b) / 64 % 32 = a := by omega
  have hlast : (64 * a + b) % 64 = b := by omega
  simp only [String.utf8EncodeChar, hval]
  rw [if_neg (by omega), if_pos (by omega), hfirst, hlast]

theorem encodeChar_three {a b c : Nat} (ha : a < 0x10) (hb : b < 0x40) (hc : c < 0x40)
    (hshort : a = 0 → 0x20 ≤ b) (hsurrogate : a = 0xd → b < 0x20) :
    String.utf8EncodeChar (.ofNat (64 * (64 * a + b) + c))
      = [.ofNat (a + 0xe0), .ofNat (b + 0x80), .ofNat (c + 0x80)] := by
  have hvalid : (64 * (64 * a + b) + c).isValidChar := by
    unfold Nat.isValidChar
    omega
  have hval := val_ofNat hvalid
  have hfirst : (64 * (64 * a + b) + c) / 4096 % 16 = a := by omega
  have hsecond : (64 * (64 * a + b) + c) / 64 % 64 = b := by omega
  have hlast : (64 * (64 * a + b) + c) % 64 = c := by omega
  simp only [String.utf8EncodeChar, hval]
  rw [if_neg (by omega), if_neg (by omega), if_pos (by omega), hfirst, hsecond, hlast]

theorem encodeChar_four {a b c d : Nat} (ha : a ≤ 4) (hb : b < 0x40) (hc : c < 0x40) (hd : d < 0x40)
    (hshort : a = 0 → 0x10 ≤ b) (hlast : a = 4 → b < 0x10) :
    String.utf8EncodeChar (.ofNat (64 * (64 * (64 * a + b) + c) + d))
      = [.ofNat (a + 0xf0), .ofNat (b + 0x80), .ofNat (c + 0x80), .ofNat (d + 0x80)] := by
  have hvalid : (64 * (64 * (64 * a + b) + c) + d).isValidChar := by
    unfold Nat.isValidChar
    omega
  have hval := val_ofNat hvalid
  have hfirst : (64 * (64 * (64 * a + b) + c) + d) / 262144 % 8 = a := by omega
  have hsecond : (64 * (64 * (64 * a + b) + c) + d) / 4096 % 64 = b := by omega
  have hthird : (64 * (64 * (64 * a + b) + c) + d) / 64 % 64 = c := by omega
  have hfourth : (64 * (64 * (64 * a + b) + c) + d) % 64 = d := by omega
  simp only [String.utf8EncodeChar, hval]
  rw [if_neg (by omega), if_neg (by omega), if_neg (by omega), hfirst, hsecond, hthird, hfourth]

/-- A byte is what is above a mark, and the mark. -/
theorem ofNat_sub_add {b : UInt8} {mark : Nat} (h : mark ≤ b.toNat) :
    UInt8.ofNat (b.toNat - mark + mark) = b := by
  rw [Nat.sub_add_cancel h, UInt8.ofNat_toNat]

/-- A character that is complete after no more bytes. -/
theorem complete_zero {low high bits : Nat} {seen bytes rest : List UInt8} {c : Char}
    (h : complete 0 low high bits seen bytes = (.char c, rest)) :
    c = .ofNat bits ∧ rest = bytes := by
  rw [complete, Prod.mk.injEq, Segment.char.injEq] at h
  exact ⟨h.1.symm, h.2.symm⟩

/-- A character that needs one more byte, and gets it. -/
theorem complete_succ {needed low high bits : Nat} {seen bytes rest : List UInt8} {c : Char}
    (h : complete (needed + 1) low high bits seen bytes = (.char c, rest)) :
    ∃ b more, bytes = b :: more ∧ low ≤ b.toNat ∧ b.toNat ≤ high ∧
      complete needed 0x80 0xbf (64 * bits + (b.toNat - 0x80)) (b :: seen) more
        = (.char c, rest) := by
  cases bytes with
  | nil =>
      rw [complete, Prod.mk.injEq] at h
      cases h.1
  | cons b more =>
      rw [complete] at h
      by_cases hb : low ≤ b.toNat ∧ b.toNat ≤ high
      · rw [if_pos hb] at h
        exact ⟨b, more, rfl, hb.1, hb.2, h⟩
      · rw [if_neg hb, Prod.mk.injEq] at h
        cases h.1

/-- The bytes that are taken for a character are the ones it is written with. -/
theorem next_char {b : UInt8} {bytes rest : List UInt8} {c : Char}
    (h : next b bytes = (.char c, rest)) : b :: bytes = String.utf8EncodeChar c ++ rest := by
  rw [next, lead?] at h
  by_cases hone : b.toNat < 0x80
  · rw [if_pos hone] at h
    obtain ⟨hc, hrest⟩ := complete_zero h
    rw [hc, hrest, encodeChar_one hone, UInt8.ofNat_toNat]
    rfl
  rw [if_neg hone] at h
  by_cases hbad : b.toNat < 0xc2
  · rw [if_pos hbad] at h
    cases (Prod.mk.inj h).1
  rw [if_neg hbad] at h
  by_cases htwo : b.toNat < 0xe0
  · rw [if_pos htwo] at h
    obtain ⟨b₁, more, rfl, hlow₁, hhigh₁, h⟩ := complete_succ h
    obtain ⟨hc, hrest⟩ := complete_zero h
    have hb : 0xc0 ≤ b.toNat := by omega
    rw [hc, hrest, encodeChar_two (by omega) (by omega) (by omega), ofNat_sub_add hb,
      ofNat_sub_add hlow₁]
    rfl
  rw [if_neg htwo] at h
  by_cases hthree : b.toNat < 0xf0
  · rw [if_pos hthree] at h
    obtain ⟨b₁, more, rfl, hlow₁, hhigh₁, h⟩ := complete_succ h
    obtain ⟨b₂, more, rfl, hlow₂, hhigh₂, h⟩ := complete_succ h
    obtain ⟨hc, hrest⟩ := complete_zero h
    have hb : 0xe0 ≤ b.toNat := by omega
    obtain ⟨hb₁, hshort⟩ : 0x80 ≤ b₁.toNat ∧ (b.toNat = 0xe0 → 0xa0 ≤ b₁.toNat) := by
      split at hlow₁ <;> omega
    have hsurrogate : b₁.toNat ≤ 0xbf ∧ (b.toNat = 0xed → b₁.toNat ≤ 0x9f) := by
      split at hhigh₁ <;> omega
    rw [hc, hrest, encodeChar_three (by omega) (by omega) (by omega) (by omega) (by omega),
      ofNat_sub_add hb, ofNat_sub_add hb₁, ofNat_sub_add hlow₂]
    rfl
  rw [if_neg hthree] at h
  by_cases hfour : b.toNat < 0xf5
  · rw [if_pos hfour] at h
    obtain ⟨b₁, more, rfl, hlow₁, hhigh₁, h⟩ := complete_succ h
    obtain ⟨b₂, more, rfl, hlow₂, hhigh₂, h⟩ := complete_succ h
    obtain ⟨b₃, more, rfl, hlow₃, hhigh₃, h⟩ := complete_succ h
    obtain ⟨hc, hrest⟩ := complete_zero h
    have hb : 0xf0 ≤ b.toNat := by omega
    obtain ⟨hb₁, hshort⟩ : 0x80 ≤ b₁.toNat ∧ (b.toNat = 0xf0 → 0x90 ≤ b₁.toNat) := by
      split at hlow₁ <;> omega
    have hlast : b₁.toNat ≤ 0xbf ∧ (b.toNat = 0xf4 → b₁.toNat ≤ 0x8f) := by
      split at hhigh₁ <;> omega
    rw [hc, hrest,
      encodeChar_four (by omega) (by omega) (by omega) (by omega) (by omega) (by omega),
      ofNat_sub_add hb, ofNat_sub_add hb₁, ofNat_sub_add hlow₂, ofNat_sub_add hlow₃]
    rfl
  · rw [if_neg hfour] at h
    cases (Prod.mk.inj h).1

theorem segmentsOnto_eq (done : List Segment) (bytes : List UInt8) :
    segmentsOnto done bytes = done.reverse ++ segments bytes := by
  unfold segments
  induction hn : bytes.length using Nat.strongRecOn generalizing done bytes with
  | ind n ih =>
      cases bytes with
      | nil => simp [segmentsOnto]
      | cons b rest =>
          have hlt : (next b rest).2.length < n := hn ▸ Nat.lt_succ_of_le (length_next_le b rest)
          rw [segmentsOnto, segmentsOnto, ih _ hlt _ _ rfl, ih _ hlt [_] _ rfl]
          simp

theorem segments_cons (b : UInt8) (rest : List UInt8) :
    segments (b :: rest) = (next b rest).1 :: segments (next b rest).2 := by
  rw [segments, segmentsOnto, segmentsOnto_eq]
  rfl

/-- Bytes without a malformed run are those of their characters. -/
theorem encode_segments (bytes : List UInt8) :
    ∀ position, firstError? position (segments bytes) = none →
      encode ((segments bytes).map Segment.toChar) = bytes := by
  induction hn : bytes.length using Nat.strongRecOn generalizing bytes with
  | ind n ih =>
      intro position h
      cases bytes with
      | nil =>
          rw [segments, segmentsOnto]
          rfl
      | cons b rest =>
          have hlt : (next b rest).2.length < n := hn ▸ Nat.lt_succ_of_le (length_next_le b rest)
          rw [segments_cons] at h ⊢
          obtain ⟨segment, left⟩ : ∃ segment, (next b rest).1 = segment := ⟨_, rfl⟩
          cases segment with
          | malformed fault run =>
              rw [left] at h
              cases h
          | char c =>
              rw [left] at h ⊢
              have hmore := ih _ hlt _ rfl _ h
              rw [List.map_cons, encode, List.flatMap_cons]
              rw [encode] at hmore
              rw [hmore]
              exact (next_char (Prod.ext left rfl)).symm

theorem encode?_of_decode {bytes : List UInt8} {t : Text} (h : decode bytes = .ok t) :
    encode? t = some bytes := by
  unfold decode at h
  dsimp only at h
  cases hfault : firstError? 0 (segments bytes) with
  | some e =>
      rw [hfault] at h
      cases h
  | none =>
      rw [hfault] at h
      cases h
      exact encode?_eq_some.mpr ⟨_, rfl, encode_segments bytes 0 hfault⟩

/-- **Bytes are decoded exactly when they are those of a text.** -/
theorem decode_eq_ok_iff {bytes : List UInt8} {t : Text} :
    decode bytes = .ok t ↔ encode? t = some bytes :=
  ⟨encode?_of_decode, decode_of_encode?⟩

end TerminalMarkup.Utf8
