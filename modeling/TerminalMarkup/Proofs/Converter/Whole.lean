/-
A whole text in one call.

What the converter shows of a text is what the grammar says, token by token.  The
style of a text is that of the renditions before it, and everything but text and
hyperlinks shows nothing.  How the reader came by its tokens leaves no trace: an
escape character may be given up because a sequence is broken, because a command is
no hyperlink, or because the input ends too soon, and each time the grammar has a
stray escape character in its place.
-/
import TerminalMarkup.Proofs.Converter.Packets
import TerminalMarkup.Proofs.Token.Grammar

namespace TerminalMarkup

open Token

/-- The packets of what is left have the tokens of the grammar, but for the escape characters that
are given up at the end: those are stray to the grammar, and show nothing. -/
theorem Stream.ofTokens_finalPackets (settings : Settings) (buffer : Text) :
    ∀ (start : Nat) (s : Style),
      Html.ofTokens settings s ((finalPackets start ⟨buffer, s⟩).map Packet.token)
        = Html.ofTokens settings s (ofWhole buffer) := by
  induction buffer using end_induction with
  | nil =>
      intro start s
      rw [finalPackets_nil, ofWhole_nil]
      rfl
  | token buffer t rest h ih =>
      intro start s
      rw [finalPackets_of_token h, ofWhole_of_token h, List.map_cons, Html.ofTokens_cons, ih,
        Html.ofTokens_cons]
  | unfinished tail h ih =>
      intro start s
      rw [finalPackets_of_unfinished h, ofWhole_of_unfinished h, ih]
      rfl

/--
**A text is shown as the grammar says.**  Every text falls into tokens in exactly one
way, and the converter shows these tokens in order, each in the style that the
renditions before it make of the plain style.
-/
theorem Converter.convertAll_html (settings : Settings) (t : Text) :
    ∃ ts, (∀ us, Lexes t us ↔ us = ts) ∧
      (convertAll settings t).html = Html.ofTokens settings .plain ts := by
  have hpackets : (convertAll settings t).html
      = (Stream.finalPackets 0 ⟨t, .plain⟩).flatMap (Packet.html settings) :=
    run_convert_finish settings t
  refine ⟨ofWhole t, fun us => lexes_iff, ?_⟩
  rw [hpackets, Stream.finalPackets_html, Stream.ofTokens_finalPackets]

-- The command never ends, so it is no hyperlink, and what it seemed to contain is read.
example : (Converter.convertAll {} [esc, ']', '8', ';', esc, '[', '1', 'm', 'b']).html
    = "]8;<span style=\"font-weight:bold\">b</span>".toText := by
  decide +kernel

end TerminalMarkup
