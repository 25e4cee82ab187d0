/-
A stream may arrive in chunks.

The pages that come of a text do not depend on how the text was cut on its way, up to
one thing: a text that is shown in some style and was cut is shown in pieces, each
in an element of its own.  `Recut` is that relation between packets.  It cuts text
packets only, never to nothing, and only at places that are allowed; its second
index is the finer list.

The proof goes through the chunks from the left.  The packets of everything that is
still to come are `finalPackets` of the buffer and all remaining chunks.  Taking in
one chunk reads some of them early, and `recut_append` says that this cuts at most
the last one, at the end of the chunk.  What is left is a stream in the state that
the whole text would have brought about (`Stream.advance_append`), so the next chunk
is no different from the first.
-/
import TerminalMarkup.Proofs.Converter.Packets
import TerminalMarkup.Proofs.Html.Rendering

namespace TerminalMarkup

open Token

/-! ### Cutting text packets -/

/-- The second list has the packets of the first, with text cut at allowed places. -/
inductive Recut (allowed : Nat → Prop) : List Packet → List Packet → Prop
  | nil : Recut allowed [] []
  | keep (p : Packet) {ps qs : List Packet} (h : Recut allowed ps qs) :
      Recut allowed (p :: ps) (p :: qs)
  | cut {start : Nat} {style : Style} {a b : Text} {ps qs : List Packet} (ha : a ≠ [])
      (hb : b ≠ []) (hplace : allowed (start + a.length))
      (h : Recut allowed (⟨start + a.length, style, .text b⟩ :: ps) qs) :
      Recut allowed (⟨start, style, .text (a ++ b)⟩ :: ps) (⟨start, style, .text a⟩ :: qs)

namespace Recut

variable {allowed : Nat → Prop}

theorem refl (ps : List Packet) : Recut allowed ps ps := by
  induction ps with
  | nil => exact .nil
  | cons p ps ih => exact .keep p ih

theorem keep_append (front : List Packet) {ps qs : List Packet} (h : Recut allowed ps qs) :
    Recut allowed (front ++ ps) (front ++ qs) := by
  induction front with
  | nil => exact h
  | cons p front ih => exact .keep p ih

/-- Cutting what has been cut: the induction is on the second cutting, and a packet that is cut
there may itself be what is left of a longer one. -/
theorem trans {ps qs rs : List Packet} (h : Recut allowed ps qs) (h' : Recut allowed qs rs) :
    Recut allowed ps rs := by
  induction h' generalizing ps with
  | nil => exact h
  | keep p _ ih =>
      cases h with
      | keep _ h => exact .keep p (ih h)
      | cut ha hb hplace h => exact .cut ha hb hplace (ih h)
  | @cut start style a b ps' qs' ha hb hplace _ ih =>
      cases h with
      | keep _ h => exact .cut ha hb hplace (ih (.keep _ h))
      | @cut _ _ _ c _ _ hab hc hplace' h =>
          rw [List.append_assoc]
          refine .cut ha (by simp [hb]) hplace (ih (.cut hb hc ?_ ?_))
          · rwa [Nat.add_assoc, ← List.length_append]
          · rwa [Nat.add_assoc, ← List.length_append]

end Recut

/-- The place is inside the text of the packet. -/
def Packet.IsCutBy (p : Packet) (place : Nat) : Prop :=
  ∃ chars, p.token = .text chars ∧ p.start < place ∧ place < p.start + chars.length

/-- Text in the plain style can be cut anywhere. -/
theorem Recut.html_eq {allowed : Nat → Prop} {ps qs : List Packet} (h : Recut allowed ps qs)
    (hwhole : ∀ p ∈ ps, p.style ≠ .plain → ∀ place, allowed place → ¬p.IsCutBy place)
    (settings : Settings) :
    qs.flatMap (Packet.html settings) = ps.flatMap (Packet.html settings) := by
  induction h with
  | nil => rfl
  | keep p _ ih =>
      rw [List.flatMap_cons, List.flatMap_cons, ih fun q hq => hwhole q (by simp [hq])]
  | @cut start style a b ps qs ha hb hplace _ ih =>
      have hplain : style = .plain := by
        by_cases hstyle : style = .plain
        · exact hstyle
        · have hcut : Packet.IsCutBy ⟨start, style, .text (a ++ b)⟩ (start + a.length) := by
            have := List.length_pos_iff.mpr ha
            have := List.length_pos_iff.mpr hb
            exact ⟨a ++ b, rfl, by simp only; omega, by simp only [List.length_append]; omega⟩
          exact absurd hcut (hwhole _ (List.mem_cons_self ..) hstyle _ hplace)
      subst hplain
      have htail : ∀ p ∈ (⟨start + a.length, .plain, .text b⟩ : Packet) :: ps, p.style ≠ .plain →
          ∀ place, allowed place → ¬p.IsCutBy place := by
        intro p hp hstyle
        rcases List.mem_cons.mp hp with rfl | hp
        · exact absurd rfl hstyle
        · exact hwhole p (by simp [hp]) hstyle
      rw [List.flatMap_cons, ih htail, List.flatMap_cons, List.flatMap_cons]
      simp only [Packet.html, Token.html, Html.renderText_plain, Html.written_append,
        List.append_assoc]

namespace Stream

variable {allowed : Nat → Prop}

/-! ### One chunk -/

/-- Text that takes up the whole buffer, and goes on with what arrives, is cut where that begins. -/
theorem recut_text {buffer more run tail : Text} (hbuffer : buffer ≠ [])
    (hmore : read more = .token (.text run) tail)
    (hgrown : read (buffer ++ more) = .token (.text (buffer ++ run)) tail) (start : Nat) (s : Style)
    (hplace : allowed (start + buffer.length)) :
    Recut allowed (finalPackets start ⟨buffer ++ more, s⟩)
      (⟨start, s, .text buffer⟩ :: finalPackets (start + buffer.length) ⟨more, s⟩) := by
  have hlength := length_lt_of_read hmore
  have hrun : run ≠ [] := by
    obtain ⟨word, hspells, -⟩ := spells_of_read hmore
    exact hspells.of_text.2.1
  have hnext : start + ((buffer ++ more).length - tail.length)
      = start + buffer.length + (more.length - tail.length) := by
    simp only [List.length_append]
    omega
  rw [finalPackets_of_token hgrown, finalPackets_of_token hmore, hnext]
  exact .cut hbuffer hrun hplace (Recut.refl _)

/-- Reading a buffer before more arrives cuts its last text, and nothing else. -/
theorem recut_append (buffer more : Text) (start : Nat) (s : Style)
    (hplace : allowed (start + buffer.length)) :
    Recut allowed (finalPackets start ⟨buffer ++ more, s⟩)
      (packets start ⟨buffer, s⟩ ++
        finalPackets (start + (buffer.length - (advance ⟨buffer, s⟩).2.buffer.length))
          ⟨(advance ⟨buffer, s⟩).2.buffer ++ more, (advance ⟨buffer, s⟩).2.style⟩) := by
  induction buffer using read_induction generalizing start s with
  | stuck buffer h =>
      rw [advance_of_stuck h, packets_of_stuck h]
      simpa using Recut.refl (finalPackets start ⟨buffer ++ more, s⟩)
  | token buffer t rest h ih =>
      have hrest := length_lt_of_read h
      have hleft : (advance ⟨rest, styleAfter s t⟩).2.buffer.length ≤ rest.length :=
        length_advance_le _
      rcases read_append h more with hsame | ⟨run, tail, rfl, rfl, hmore, hgrown⟩
      · -- The token is the same, and the rest is cut as the rest of the buffer is.
        have ih := ih (start + (buffer.length - rest.length)) (styleAfter s t)
          (by rwa [Nat.add_assoc, Nat.sub_add_cancel (Nat.le_of_lt hrest)])
        have hnext : start + ((buffer ++ more).length - (rest ++ more).length)
            = start + (buffer.length - rest.length) := by
          simp only [List.length_append]
          omega
        have hend : start + (buffer.length - rest.length) +
              (rest.length - (advance ⟨rest, styleAfter s t⟩).2.buffer.length)
            = start + (buffer.length - (advance ⟨rest, styleAfter s t⟩).2.buffer.length) := by
          omega
        rw [finalPackets_of_token hsame, packets_of_token h, advance_of_token h, hnext,
          List.cons_append]
        rw [hend] at ih
        exact .keep _ ih
      · -- The text takes up the whole buffer, and what arrives goes on with it.
        have hnil : Stuck [] := by simp [Stuck]
        have hbuffer : buffer ≠ [] := by
          rintro rfl
          simp at h
        rw [packets_of_token h, advance_of_token h, packets_of_stuck hnil]
        simp only [styleAfter, advance_of_stuck hnil, List.nil_append, List.length_nil,
          Nat.sub_zero, List.cons_append]
        exact recut_text hbuffer hmore hgrown start s hplace

end Stream

namespace Converter

/-! ### All chunks -/

/-- A chunk ends after so many characters, or the first one begins there. -/
def IsBoundary (chunks : List Text) (place : Nat) : Prop :=
  ∃ before after, chunks = before ++ after ∧ before.flatten.length = place

theorem IsBoundary.eq_take {chunks : List Text} {place : Nat} (h : IsBoundary chunks place) :
    ∃ n ≤ chunks.length, (chunks.take n).flatten.length = place := by
  obtain ⟨before, after, rfl, rfl⟩ := h
  refine ⟨before.length, by simp, ?_⟩
  rw [List.take_left]

/-- Chunks that have arrived leave the stream that all of them together leave. -/
theorem run_convert (settings : Settings) (chunks : List Text) :
    ∀ s : Stream, Stuck s.buffer →
      (run ⟨settings, s⟩ (chunks.map .convert)).2 = ⟨settings, (s.convert chunks.flatten).2⟩ := by
  induction chunks with
  | nil =>
      intro s h
      simp [Stream.convert, Stream.advance_of_stuck h]
  | cons chunk chunks ih =>
      intro s h
      rw [List.flatten_cons, ← Stream.convert_append]
      exact ih (s.convert chunk).2 (Stream.stuck_advance _)

/-- Chunks and the end of the stream yield the packets of everything at once, cut between
chunks. -/
theorem recut_run (settings : Settings) {allowed : Nat → Prop} (chunks : List Text) :
    ∀ (start : Nat) (s : Stream),
      (∀ place, IsBoundary chunks place → allowed (start + s.buffer.length + place)) →
      ∃ pieces, Recut allowed
          (Stream.finalPackets start ⟨s.buffer ++ chunks.flatten, s.style⟩) pieces ∧
        (run ⟨settings, s⟩ (chunks.map .convert ++ [.finish])).1.flatMap Output.html
          = pieces.flatMap (Packet.html settings) := by
  induction chunks with
  | nil =>
      intro start s _
      refine ⟨_, Recut.refl _, ?_⟩
      show (s.finish.1.flatMap (Piece.html settings)) ++ [] = _
      rw [Stream.finish_html settings start, List.append_nil, List.flatten_nil, List.append_nil]
  | cons chunk chunks ih =>
      intro start s hplaces
      have hleft : (s.convert chunk).2.buffer.length ≤ (s.buffer ++ chunk).length :=
        Stream.length_advance_le _
      have hlater : ∀ place, IsBoundary chunks place →
          allowed (start + ((s.buffer ++ chunk).length - (s.convert chunk).2.buffer.length)
            + (s.convert chunk).2.buffer.length + place) := by
        rintro place ⟨before, after, rfl, rfl⟩
        have hsum : start + ((s.buffer ++ chunk).length - (s.convert chunk).2.buffer.length)
              + (s.convert chunk).2.buffer.length + before.flatten.length
            = start + s.buffer.length + (chunk :: before).flatten.length := by
          simp only [List.flatten_cons, List.length_append] at hleft ⊢
          omega
        rw [hsum]
        exact hplaces _ ⟨chunk :: before, after, rfl, rfl⟩
      obtain ⟨pieces, hrecut, hhtml⟩ := ih _ (s.convert chunk).2 hlater
      have hfirst : allowed (start + (s.buffer ++ chunk).length) := by
        have := hplaces chunk.length ⟨[chunk], chunks, rfl, by simp⟩
        rwa [List.length_append, ← Nat.add_assoc]
      have hearly := Stream.recut_append (s.buffer ++ chunk) chunks.flatten start s.style hfirst
      refine ⟨Stream.packets start ⟨s.buffer ++ chunk, s.style⟩ ++ pieces, ?_, ?_⟩
      · rw [List.flatten_cons, ← List.append_assoc]
        exact hearly.trans (hrecut.keep_append _)
      · have hhead : (step ⟨settings, s⟩ (.convert chunk)).1.html
            = (Stream.packets start ⟨s.buffer ++ chunk, s.style⟩).flatMap (Packet.html settings) :=
          Stream.advance_html settings start _
        rw [List.map_cons, List.cons_append, run_cons, List.flatMap_cons, List.flatMap_append,
          hhead, ← hhtml]
        rfl

/--
**The HTML of a stream does not depend on how it was cut into chunks,** except that
text may be shown in pieces, which are cut where chunks end.  The style at the end is
the same, and so is what is unread before it.  A text whose styled parts are not cut
comes out letter for letter.
-/
theorem run_chunks (settings : Settings) (chunks : List Text) :
    let whole := run { settings } [.convert chunks.flatten, .finish]
    let parts := run { settings } (chunks.map .convert ++ [.finish])
    let packets := Stream.finalPackets 0 ⟨chunks.flatten, .plain⟩
    whole.1.flatMap Output.html = packets.flatMap (Packet.html settings) ∧
      (∃ pieces, Recut (IsBoundary chunks) packets pieces ∧
        parts.1.flatMap Output.html = pieces.flatMap (Packet.html settings)) ∧
      parts.2.stream.style = whole.2.stream.style ∧
      (run { settings } (chunks.map .convert)).2.stream.buffer
        = (run { settings } [.convert chunks.flatten]).2.stream.buffer ∧
      ((∀ p ∈ packets, p.style ≠ .plain →
          ∀ place, IsBoundary chunks place → ¬p.IsCutBy place) →
        parts.1.flatMap Output.html = whole.1.flatMap Output.html) := by
  intro whole parts packets
  have hstuck : Stuck [] := by simp [Stuck]
  have hwhole : whole.1.flatMap Output.html = packets.flatMap (Packet.html settings) :=
    run_convert_finish settings chunks.flatten
  have hpieces : ∃ pieces, Recut (IsBoundary chunks) packets pieces ∧
      parts.1.flatMap Output.html = pieces.flatMap (Packet.html settings) :=
    recut_run settings chunks 0 {} fun place hplace => by simpa using hplace
  obtain ⟨pieces, hrecut, hparts⟩ := hpieces
  have hstream : (run { settings } (chunks.map .convert)).2
      = (run { settings } [.convert chunks.flatten]).2 := run_convert settings chunks {} hstuck
  refine ⟨hwhole, ⟨pieces, hrecut, hparts⟩, ?_, by rw [hstream], ?_⟩
  · show (run _ _).2.stream.style = (run _ ([.convert chunks.flatten] ++ [.finish])).2.stream.style
    rw [run_append, run_append, hstream]
  · intro hcuts
    rw [hparts, hrecut.html_eq hcuts settings, hwhole]

/-- Cuts inside sequences and inside plain text leave no trace. -/
theorem run_chunks_inside_sequences :
    let chunks : List Text :=
      [['a', esc], ['[', '1'], ['m', 'b', 'c', esc, '[', '0'], ['m', 'd'], ['e']]
    (run { settings := {} } (chunks.map .convert ++ [.finish])).1.flatMap Output.html
      = (run { settings := {} } [.convert chunks.flatten, .finish]).1.flatMap Output.html := by
  intro chunks
  refine (run_chunks {} chunks).2.2.2.2 ?_
  have hpackets : Stream.finalPackets 0 ⟨chunks.flatten, .plain⟩ =
      [⟨0, .plain, .text ['a']⟩, ⟨1, .plain, .rendition ['1']⟩,
        ⟨5, { Style.plain with bold := true }, .text ['b', 'c']⟩,
        ⟨7, { Style.plain with bold := true }, .rendition ['0']⟩,
        ⟨11, .plain, .text ['d', 'e']⟩] := by
    decide +kernel
  have hplaces : ∀ n ≤ chunks.length, (chunks.take n).flatten.length ≠ 6 := by decide
  rw [hpackets]
  intro p hp hstyle place hplace hcut
  obtain ⟨n, hn, hlength⟩ := hplace.eq_take
  obtain ⟨chars, htoken, hfrom, hto⟩ := hcut
  simp only [List.mem_cons, List.not_mem_nil, or_false] at hp
  rcases hp with rfl | rfl | rfl | rfl | rfl
  · exact hstyle rfl
  · exact hstyle rfl
  · -- The only place inside the bold text is its middle.
    have hchars : chars = [.scalar 'b', .scalar 'c'] := (Token.text.inj htoken).symm
    subst hchars
    simp only [List.length_cons, List.length_nil] at hfrom hto
    exact hplaces n hn (by omega)
  · exact Token.noConfusion htoken
  · exact hstyle rfl

end Converter

end TerminalMarkup
