/-
The packets of a call.

A packet is a token at its place in the input, together with the style that was in
force when it was read.  The pieces of a stream forget both the place and the tokens
that show nothing; what is proved about the HTML of a converter is about packets,
because a packet can be compared with the packet that another way of feeding the
same input has at the same place.

`packets` follows the reading of a chunk and `finalPackets` the reading of all that
is left when nothing more comes.  The HTML of a call is the HTML of its packets, one
after another and with nothing between them (`step_html`).

What tokens come to needs neither the places nor the stream: their HTML is
`Html.ofTokens`, which changes the style at a rendition and nowhere else, and the style
after them is `Style.afterTokens`.
-/
import TerminalMarkup.Converter
import TerminalMarkup.Proofs.Stream

namespace TerminalMarkup

open Token

/-- A token, how many characters of the input came before it, and the style in force. -/
structure Packet where
  start : Nat
  style : Style
  token : Token
  deriving DecidableEq, Repr

/-- The HTML of a token in a style. -/
def Token.html (settings : Settings) (s : Style) : Token → Text
  | .text chars => Html.renderText settings s chars
  | .hyperlink url label => Html.renderHyperlink settings url label
  | _ => []

/-- The HTML of a packet. -/
def Packet.html (settings : Settings) (p : Packet) : Text := p.token.html settings p.style

/-! ### Tokens alone -/

/-- The HTML of tokens from a style on. -/
def Html.ofTokens (settings : Settings) (s : Style) : List Token → Text
  | [] => []
  | .text chars :: ts => renderText settings s chars ++ ofTokens settings s ts
  | .hyperlink url label :: ts => renderHyperlink settings url label ++ ofTokens settings s ts
  | .rendition params :: ts => ofTokens settings (Sgr.apply params s) ts
  | .control _ :: ts => ofTokens settings s ts
  | .strayEscape :: ts => ofTokens settings s ts

/-- A token is shown in the style before it, and the rest in the style after it. -/
theorem Html.ofTokens_cons (settings : Settings) (s : Style) (t : Token) (ts : List Token) :
    ofTokens settings s (t :: ts)
      = t.html settings s ++ ofTokens settings (Stream.styleAfter s t) ts := by
  cases t <;> rfl

/-- The parameters of a token that is a rendition. -/
def Token.params? : Token → Option Text
  | .rendition params => some params
  | _ => none

/-- The style that the renditions among tokens make of a style, whatever else is among them. -/
def Style.afterTokens (s : Style) (ts : List Token) : Style :=
  (ts.filterMap Token.params?).foldl (fun s params => Sgr.apply params s) s

theorem Style.afterTokens_cons (s : Style) (t : Token) (ts : List Token) :
    s.afterTokens (t :: ts) = (Stream.styleAfter s t).afterTokens ts := by
  cases t <;> rfl

namespace Stream

/-- The packets of a stream whose buffer begins after `start` characters, up to the end of the
buffer or to a sequence that is not finished. -/
def packets (start : Nat) (s : Stream) : List Packet :=
  match _h : read s.buffer with
  | .token t rest =>
    ⟨start, s.style, t⟩ ::
      packets (start + (s.buffer.length - rest.length)) ⟨rest, styleAfter s.style t⟩
  | _ => []
termination_by s.buffer.length
decreasing_by exact length_lt_of_read _h

/-- The packets of a stream to which nothing is added any more.  A sequence that is not finished
loses its escape character, which is no packet, and what follows is read. -/
def finalPackets (start : Nat) (s : Stream) : List Packet :=
  match _h : read s.buffer with
  | .finished => []
  | .token t rest =>
    ⟨start, s.style, t⟩ ::
      finalPackets (start + (s.buffer.length - rest.length)) ⟨rest, styleAfter s.style t⟩
  | .unfinished => finalPackets (start + 1) ⟨s.buffer.tail, s.style⟩
termination_by s.buffer.length
decreasing_by
  · exact length_lt_of_read _h
  · obtain ⟨tail, htail⟩ := eq_esc_cons_of_unfinished _h
    simp [htail]

/-! ### Equations -/

theorem packets_of_stuck {buffer : Text} (h : Stuck buffer) (start : Nat) (s : Style) :
    packets start ⟨buffer, s⟩ = [] := by
  rw [packets]
  split
  · rename_i t rest h'
    exact absurd h' (h t rest)
  · rfl

theorem packets_of_token {buffer rest : Text} {t : Token} (h : read buffer = .token t rest)
    (start : Nat) (s : Style) :
    packets start ⟨buffer, s⟩ = ⟨start, s, t⟩ ::
      packets (start + (buffer.length - rest.length)) ⟨rest, styleAfter s t⟩ := by
  rw [packets]
  split
  · rename_i t' rest' h'
    have hsame := h.symm.trans h'
    rw [Reading.token.injEq] at hsame
    obtain ⟨rfl, rfl⟩ := hsame
    rfl
  · rename_i hnot
    exact absurd h (hnot t rest)

@[simp] theorem finalPackets_nil (start : Nat) (s : Style) : finalPackets start ⟨[], s⟩ = [] := by
  rw [finalPackets]
  rfl

theorem finalPackets_of_token {buffer rest : Text} {t : Token} (h : read buffer = .token t rest)
    (start : Nat) (s : Style) :
    finalPackets start ⟨buffer, s⟩ = ⟨start, s, t⟩ ::
      finalPackets (start + (buffer.length - rest.length)) ⟨rest, styleAfter s t⟩ := by
  rw [finalPackets]
  split
  · rename_i h'
    exact absurd (h.symm.trans h') (by simp)
  · rename_i t' rest' h'
    have hsame := h.symm.trans h'
    rw [Reading.token.injEq] at hsame
    obtain ⟨rfl, rfl⟩ := hsame
    rfl
  · rename_i h'
    exact absurd (h.symm.trans h') (by simp)

theorem finalPackets_of_unfinished {tail : Text} (h : read (esc :: tail) = .unfinished)
    (start : Nat) (s : Style) :
    finalPackets start ⟨esc :: tail, s⟩ = finalPackets (start + 1) ⟨tail, s⟩ := by
  rw [finalPackets]
  split
  · rename_i h'
    exact absurd (h.symm.trans h') (by simp)
  · rename_i t' rest' h'
    exact absurd (h.symm.trans h') (by simp)
  · rfl

/-- The packets of a chunk are the tokens that the stream reads. -/
theorem packets_tokens (start : Nat) (s : Stream) :
    (packets start s).map Packet.token = (readAll s.buffer).1.map Sighting.token := by
  obtain ⟨buffer, style⟩ := s
  induction buffer using read_induction generalizing start style with
  | stuck buffer h =>
      rw [packets_of_stuck h, readAll_of_stuck h]
      rfl
  | token buffer t rest h ih =>
      rw [packets_of_token h, readAll_of_token h, List.map_cons, List.map_cons, ih]

/-- What holds of every token that is read holds of the tokens of packets. -/
theorem forall_packets {P : Token → Prop}
    (hread : ∀ {buffer rest : Text} {t : Token}, read buffer = .token t rest → P t)
    (buffer : Text) : ∀ (start : Nat) (s : Style), ∀ p ∈ packets start ⟨buffer, s⟩, P p.token := by
  induction buffer using read_induction with
  | stuck buffer h =>
      intro start s p hp
      rw [packets_of_stuck h] at hp
      exact absurd hp List.not_mem_nil
  | token buffer t rest h ih =>
      intro start s p hp
      rw [packets_of_token h] at hp
      rcases List.mem_cons.mp hp with rfl | hp
      · exact hread h
      · exact ih _ _ p hp

/-- So it does for the packets of the end. -/
theorem forall_finalPackets {P : Token → Prop}
    (hread : ∀ {buffer rest : Text} {t : Token}, read buffer = .token t rest → P t)
    (buffer : Text) :
    ∀ (start : Nat) (s : Style), ∀ p ∈ finalPackets start ⟨buffer, s⟩, P p.token := by
  induction buffer using end_induction with
  | nil =>
      intro start s p hp
      rw [finalPackets_nil] at hp
      exact absurd hp List.not_mem_nil
  | token buffer t rest h ih =>
      intro start s p hp
      rw [finalPackets_of_token h] at hp
      rcases List.mem_cons.mp hp with rfl | hp
      · exact hread h
      · exact ih _ _ p hp
  | unfinished tail h ih =>
      intro start s p hp
      rw [finalPackets_of_unfinished h] at hp
      exact ih _ _ p hp

/-! ### The HTML of a call -/

theorem flatMap_html_piece? (settings : Settings) (start : Nat) (s : Style) (t : Token)
    (shown : Text) :
    (piece? s ⟨t, shown⟩).toList.flatMap (Piece.html settings)
      = Packet.html settings ⟨start, s, t⟩ := by
  cases t <;> simp [piece?, Packet.html, Token.html, Piece.html]

theorem advance_html (settings : Settings) (start : Nat) (s : Stream) :
    (advance s).1.flatMap (Piece.html settings)
      = (packets start s).flatMap (Packet.html settings) := by
  obtain ⟨buffer, style⟩ := s
  induction buffer using read_induction generalizing start style with
  | stuck buffer h =>
      rw [advance_of_stuck h, packets_of_stuck h, List.flatMap_nil, List.flatMap_nil]
  | token buffer t rest h ih =>
      rw [advance_of_token h, packets_of_token h, List.flatMap_append, List.flatMap_cons, ih,
        flatMap_html_piece? settings start]

theorem finish_html (settings : Settings) (start : Nat) (s : Stream) :
    (finish s).1.flatMap (Piece.html settings)
      = (finalPackets start s).flatMap (Packet.html settings) := by
  obtain ⟨buffer, style⟩ := s
  induction buffer using end_induction generalizing start style with
  | nil => rw [finish_nil, finalPackets_nil, List.flatMap_nil, List.flatMap_nil]
  | token buffer t rest h ih =>
      rw [finish_of_token h, finalPackets_of_token h, List.flatMap_append, List.flatMap_cons, ih,
        flatMap_html_piece? settings start]
  | unfinished tail h ih =>
      rw [finish_of_unfinished h, finalPackets_of_unfinished h, List.flatMap_cons, ih (start + 1)]
      rfl

/-- The packets of a chunk show their tokens. -/
theorem packets_html (settings : Settings) (buffer : Text) : ∀ (start : Nat) (s : Style),
    (packets start ⟨buffer, s⟩).flatMap (Packet.html settings)
      = Html.ofTokens settings s ((packets start ⟨buffer, s⟩).map Packet.token) := by
  induction buffer using read_induction with
  | stuck buffer h =>
      intro start s
      rw [packets_of_stuck h]
      rfl
  | token buffer t rest h ih =>
      intro start s
      rw [packets_of_token h, List.flatMap_cons, ih, List.map_cons, Html.ofTokens_cons]
      rfl

/-- So do the packets of the end. -/
theorem finalPackets_html (settings : Settings) (buffer : Text) : ∀ (start : Nat) (s : Style),
    (finalPackets start ⟨buffer, s⟩).flatMap (Packet.html settings)
      = Html.ofTokens settings s ((finalPackets start ⟨buffer, s⟩).map Packet.token) := by
  induction buffer using end_induction with
  | nil =>
      intro start s
      rw [finalPackets_nil]
      rfl
  | token buffer t rest h ih =>
      intro start s
      rw [finalPackets_of_token h, List.flatMap_cons, ih, List.map_cons, Html.ofTokens_cons]
      rfl
  | unfinished tail h ih =>
      intro start s
      rw [finalPackets_of_unfinished h, ih]

/-! ### The style of a call -/

theorem advance_style (buffer : Text) : ∀ (start : Nat) (s : Style),
    (advance ⟨buffer, s⟩).2.style
      = s.afterTokens ((packets start ⟨buffer, s⟩).map Packet.token) := by
  induction buffer using read_induction with
  | stuck buffer h =>
      intro start s
      rw [packets_of_stuck h, advance_of_stuck h]
      rfl
  | token buffer t rest h ih =>
      intro start s
      rw [packets_of_token h, advance_of_token h, List.map_cons, Style.afterTokens_cons]
      exact ih _ _

theorem finish_style (buffer : Text) : ∀ (start : Nat) (s : Style),
    (finish ⟨buffer, s⟩).2.style
      = s.afterTokens ((finalPackets start ⟨buffer, s⟩).map Packet.token) := by
  induction buffer using end_induction with
  | nil =>
      intro start s
      rw [finalPackets_nil, finish_nil]
      rfl
  | token buffer t rest h ih =>
      intro start s
      rw [finalPackets_of_token h, finish_of_token h, List.map_cons, Style.afterTokens_cons]
      exact ih _ _
  | unfinished tail h ih =>
      intro start s
      rw [finalPackets_of_unfinished h, finish_of_unfinished h]
      exact ih _ _

end Stream

namespace Converter

/-! ### Runs -/

@[simp] theorem run_nil (c : Converter) : c.run [] = ([], c) := rfl

@[simp] theorem run_cons (c : Converter) (s : Step) (rest : List Step) :
    c.run (s :: rest) =
      ((c.step s).1 :: ((c.step s).2.run rest).1, ((c.step s).2.run rest).2) := rfl

theorem run_append (c : Converter) (before after : List Step) :
    c.run (before ++ after) =
      ((c.run before).1 ++ ((c.run before).2.run after).1, ((c.run before).2.run after).2) := by
  induction before generalizing c with
  | nil => rfl
  | cons s before ih => rw [List.cons_append, run_cons, ih, run_cons, List.cons_append]

/-- A text that comes at once and is all there is has the packets of the text. -/
theorem run_convert_finish (settings : Settings) (t : Text) :
    (run { settings } [.convert t, .finish]).1.flatMap Output.html
      = (Stream.finalPackets 0 ⟨t, .plain⟩).flatMap (Packet.html settings) := by
  have hhtml : (run { settings } [.convert t, .finish]).1.flatMap Output.html
      = (Stream.advance ⟨t, .plain⟩).1.flatMap (Piece.html settings) ++
        ((Stream.finish (Stream.advance ⟨t, .plain⟩).2).1.flatMap (Piece.html settings) ++ []) :=
    rfl
  rw [hhtml, List.append_nil, ← List.flatMap_append, (Stream.finish_advance _).1,
    Stream.finish_html settings 0]

/-- The packets that a step reads, their places counted from the front of the buffer. -/
def packets (c : Converter) : Step → List Packet
  | .convert chunk => Stream.packets 0 ⟨c.stream.buffer ++ chunk, c.stream.style⟩
  | .finish => Stream.finalPackets 0 c.stream
  | .reset => []
  | .edit _ => []
  | .replace _ => []

/-- Whatever the converter holds, the tokens of packets are tokens that are read. -/
theorem forall_packets {P : Token → Prop}
    (hread : ∀ {buffer rest : Text} {t : Token}, read buffer = .token t rest → P t)
    (c : Converter) (s : Step) : ∀ p ∈ c.packets s, P p.token := by
  cases s with
  | convert chunk => exact Stream.forall_packets hread _ 0 _
  | finish => exact Stream.forall_finalPackets hread _ 0 _
  | reset => exact fun p hp => absurd hp List.not_mem_nil
  | edit e => exact fun p hp => absurd hp List.not_mem_nil
  | replace settings => exact fun p hp => absurd hp List.not_mem_nil

/-- **The HTML of a step is the HTML of its packets.** -/
theorem step_html (c : Converter) (s : Step) :
    (c.step s).1.html = (c.packets s).flatMap (Packet.html c.settings) := by
  cases s with
  | convert chunk => exact Stream.advance_html c.settings 0 _
  | finish => exact Stream.finish_html c.settings 0 _
  | reset => rfl
  | edit e => rfl
  | replace settings => rfl

/-- A step of a stream, which does not touch the settings. -/
def Step.IsInput : Step → Prop
  | .convert _ => True
  | .finish => True
  | _ => False

theorem settings_step {c : Converter} {s : Step} (h : s.IsInput) :
    (c.step s).2.settings = c.settings := by
  cases s with
  | convert chunk => rfl
  | finish => rfl
  | reset => cases h
  | edit e => cases h
  | replace settings => cases h

/-- A chunk shows the tokens of its packets and leaves the style after them. -/
theorem step_convert (c : Converter) (chunk : Text) :
    let tokens := (c.packets (.convert chunk)).map Packet.token
    (c.step (.convert chunk)).1.html = Html.ofTokens c.settings c.stream.style tokens ∧
      (c.step (.convert chunk)).2.settings = c.settings ∧
      (c.step (.convert chunk)).2.stream.style = c.stream.style.afterTokens tokens := by
  intro tokens
  refine ⟨?_, rfl, Stream.advance_style _ 0 _⟩
  rw [step_html]
  exact Stream.packets_html _ _ 0 _

/-- So does the end of the stream. -/
theorem step_finish (c : Converter) :
    let tokens := (c.packets .finish).map Packet.token
    (c.step .finish).1.html = Html.ofTokens c.settings c.stream.style tokens ∧
      (c.step .finish).2.settings = c.settings ∧
      (c.step .finish).2.stream.style = c.stream.style.afterTokens tokens := by
  intro tokens
  refine ⟨?_, rfl, Stream.finish_style _ 0 _⟩
  rw [step_html]
  exact Stream.finalPackets_html _ _ 0 _

end Converter

end TerminalMarkup
