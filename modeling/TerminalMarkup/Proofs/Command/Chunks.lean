/-
Files are converted as if they were one text.

The command reads its files one after another and each of them in chunks, so what the
converter gets are the pieces of all texts in a row.  Put together they are the texts put
together, and they end only where a text ends or after a multiple of the size of a chunk
(`isReadEnd_of_boundary`).  With that the page is, up to cuts in those places, the page of
one long text, whatever the size.

There is a limit that the option itself does not know.  A size has to be at least 1, but one
that does not fit a signed word breaks the run off before anything is read.
-/
import TerminalMarkup.Proofs.Command.Arguments
import TerminalMarkup.Proofs.Command.Invocation
import TerminalMarkup.Proofs.Converter.Spans

namespace TerminalMarkup

/-! ### Pieces -/

/-- So many characters into the texts, reading one after another by the size, a piece ends: where a
text ends or begins, or a number of pieces after the beginning of a text. -/
def IsReadEnd (size : Nat) (texts : List Text) (place : Nat) : Prop :=
  ∃ before after, texts = before ++ after ∧
    (place = before.flatten.length ∨
      ∃ t rest n, after = t :: rest ∧ n * size ≤ t.length ∧
        place = before.flatten.length + n * size)

namespace IsReadEnd

variable {size place : Nat} {texts : List Text}

theorem zero : IsReadEnd size texts 0 := ⟨[], texts, rfl, Or.inl rfl⟩

theorem cons (h : IsReadEnd size texts place) (t : Text) :
    IsReadEnd size (t :: texts) (t.length + place) := by
  obtain ⟨before, after, rfl, hplace⟩ := h
  refine ⟨t :: before, after, rfl, ?_⟩
  rw [List.flatten_cons, List.length_append]
  rcases hplace with rfl | ⟨u, rest, n, hafter, hn, rfl⟩
  · exact Or.inl rfl
  · exact Or.inr ⟨u, rest, n, hafter, hn, (Nat.add_assoc ..).symm⟩

end IsReadEnd

/-- Pieces of a text end where the text ends, or after a multiple of their size. -/
theorem Text.length_front_pieces {size : Nat} (hsize : 1 ≤ size) (t : Text) :
    ∀ front back, pieces size t = front ++ back →
      front.flatten.length = t.length ∨
        ∃ n, n * size ≤ t.length ∧ front.flatten.length = n * size := by
  fun_induction pieces size t with
  | case1 =>
      intro front back h
      obtain ⟨rfl, -⟩ := List.append_eq_nil_iff.mp h.symm
      exact Or.inl rfl
  | case2 c rest ih =>
      intro front back h
      cases front with
      | nil => exact Or.inr ⟨0, by simp, by simp⟩
      | cons piece front =>
          rw [List.cons_append, List.cons.injEq] at h
          obtain ⟨rfl, hrest⟩ := h
          have hih := ih front back hrest
          rw [List.length_drop] at hih
          rw [List.flatten_cons, List.length_append, List.length_cons, List.length_take,
            List.length_cons]
          by_cases hlast : rest.length ≤ size - 1
          · -- This is the last piece, and nothing is left for others.
            refine Or.inl ?_
            rcases hih with hih | ⟨n, hn, hih⟩
            · omega
            · omega
          · rcases hih with hih | ⟨n, hn, hih⟩
            · exact Or.inl (by omega)
            · refine Or.inr ⟨n + 1, ?_, ?_⟩
              · rw [Nat.succ_mul]
                omega
              · rw [Nat.succ_mul]
                omega

/-- **The chunks of texts end where a read ends.** -/
theorem isReadEnd_of_boundary {size : Nat} (hsize : 1 ≤ size) {texts : List Text} {place : Nat}
    (h : Converter.IsBoundary (texts.flatMap (Text.pieces size)) place) :
    IsReadEnd size texts place := by
  induction texts generalizing place with
  | nil =>
      obtain ⟨before, after, hsplit, rfl⟩ := h
      obtain ⟨rfl, -⟩ := List.append_eq_nil_iff.mp hsplit.symm
      exact .zero
  | cons t texts ih =>
      obtain ⟨before, after, hsplit, rfl⟩ := h
      rw [List.flatMap_cons] at hsplit
      rcases List.append_eq_append_iff.mp hsplit with ⟨later, rfl, hlater⟩ | ⟨rest, hfirst, -⟩
      · have hplace := (ih ⟨later, after, hlater, rfl⟩).cons t
        rwa [List.flatten_append, List.length_append, Text.flatten_pieces]
      · rcases Text.length_front_pieces hsize t before rest hfirst with hend | ⟨n, hn, hend⟩
        · rw [hend]
          exact IsReadEnd.zero.cons t
        · exact ⟨[], t :: texts, rfl, Or.inr ⟨t, texts, n, rfl, hn, by simpa using hend⟩⟩

theorem flatten_flatMap_pieces (size : Nat) (texts : List Text) :
    (texts.flatMap (Text.pieces size)).flatten = texts.flatten := by
  induction texts with
  | nil => rfl
  | cons t texts ih =>
      rw [List.flatMap_cons, List.flatten_append, ih, Text.flatten_pieces, List.flatten_cons]

namespace Command

/-! ### The page -/

/-- The packet is not text. -/
def isSequence (p : Packet) : Bool :=
  match p.token with
  | .text _ => false
  | _ => true

/-- The page of texts, cut for their reading. -/
theorem recut_convertTexts (settings : Settings) {size : Nat} (hsize : 1 ≤ size)
    (texts : List Text) :
    ∃ pieces, Recut (IsReadEnd size texts) (Stream.finalPackets 0 ⟨texts.flatten, .plain⟩) pieces ∧
      (convertTexts settings size texts).html = pieces.flatMap (Packet.html settings) := by
  have hplaces : ∀ place, Converter.IsBoundary (texts.flatMap (Text.pieces size)) place →
      IsReadEnd size texts (0 + ([] : Text).length + place) := by
    intro place hplace
    rw [List.length_nil, Nat.add_zero, Nat.zero_add]
    exact isReadEnd_of_boundary hsize hplace
  have hrun := Converter.recut_run settings (texts.flatMap (Text.pieces size)) 0 {} hplaces
  rw [flatten_flatMap_pieces] at hrun
  exact hrun

/-- **What a page has to do with the page of one long text.** -/
structure Follows (settings : Settings) (size : Nat) (texts : List Text) (body : Text) : Prop where
  /-- It is the page of the packets of the long text, cut at the ends of reads.  The sequences
  among them are whole, wherever they began and ended. -/
  recut : ∃ pieces, Recut (IsReadEnd size texts) (Stream.finalPackets 0 ⟨texts.flatten, .plain⟩)
      pieces ∧
    pieces.filter isSequence
      = (Stream.finalPackets 0 ⟨texts.flatten, .plain⟩).filter isSequence ∧
    body = pieces.flatMap (Packet.html settings)
  /-- Only spans are cut, into spans with the same attributes. -/
  respan : ∃ blocks, Respan settings
      ((Stream.finalPackets 0 ⟨texts.flatten, .plain⟩).flatMap (Packet.blocks settings)) blocks ∧
    body = blocks.flatMap Html.Block.html
  /-- If no styled text is cut, it is the page of the long text. -/
  same : (∀ p ∈ Stream.finalPackets 0 ⟨texts.flatten, .plain⟩, p.style ≠ .plain →
      ∀ place, IsReadEnd size texts place → ¬p.IsCutBy place) →
    body = (Converter.convertAll settings texts.flatten).html

theorem convertAll_packets (settings : Settings) (t : Text) :
    (Converter.convertAll settings t).html
      = (Stream.finalPackets 0 ⟨t, .plain⟩).flatMap (Packet.html settings) :=
  Converter.run_convert_finish settings t

theorem follows_convertTexts (settings : Settings) {size : Nat} (hsize : 1 ≤ size)
    (texts : List Text) : Follows settings size texts (convertTexts settings size texts).html := by
  obtain ⟨pieces, hrecut, hbody⟩ := recut_convertTexts settings hsize texts
  obtain ⟨blocks, hrespan, hblocks⟩ := hrecut.respan settings
  refine ⟨⟨pieces, hrecut, ?_, hbody⟩, ⟨blocks, hrespan, hbody.trans hblocks⟩, ?_⟩
  · exact hrecut.filter_eq fun start style chars => rfl
  · intro hwhole
    rw [hbody, hrecut.html_eq hwhole settings, convertAll_packets]

/-! ### The command -/

variable {w : World} {a : Arguments}

/-- Files by name, each with what is in it; none has the name that stands for standard input. -/
def AreFiles (w : World) (files : List (Text × List UInt8)) : Prop :=
  ∀ f ∈ files, f.1 ≠ stdinName ∧ w.files.read f.1 = .ok f.2

/-- The texts of files. -/
def textsOf (files : List (Text × List UInt8)) : List Text := files.map fun f => inputText f.2

theorem inputs_of_files {files : List (Text × List UInt8)} (h : AreFiles w files) :
    inputs w (files.map Prod.fst) = .ok (textsOf files) := by
  induction files with
  | nil => rfl
  | cons f files ih =>
      obtain ⟨hname, hread⟩ := h f List.mem_cons_self
      have hrest := ih fun g hg => h g (List.mem_cons_of_mem f hg)
      rw [List.map_cons, inputs, if_neg hname, hread]
      dsimp only
      rw [hrest]
      rfl

/-- A size that is not refused is at least 1. -/
theorem one_le_chunkSize {verb : Verb} {files : Files} (h : badValue? files verb a = none) :
    1 ≤ a.chunkSize := by
  unfold Arguments.chunkSize
  cases hvalue : a.value? .chunkSize with
  | none =>
      show (1 : Int) ≤ defaultChunkSize
      decide
  | some v =>
      rw [badValue?_eq_none_iff, firstFault?, List.findSome?_eq_none_iff] at h
      have hv := h _ (Arguments.mem_flags_of_value? hvalue)
      rw [hvalue, Option.bind_some, valueFault?] at hv
      rw [Option.bind_some]
      cases hread : Numeral.readInt? v with
      | none =>
          rw [hread] at hv
          cases hv
      | some n =>
          rw [hread] at hv
          by_cases hsmall : n < 1
          · dsimp only at hv
            rw [if_pos hsmall] at hv
            cases hv
          · exact Int.not_lt.mp hsmall

/--
**Files are converted as one text, whatever the size of a chunk.**  A run on files whose settings
are loaded ends with a page for which the size makes no difference but to the cuts of spans; the
same holds of every other size.  The exception is a size that does not fit a signed word.
-/
theorem run_convert_files {arguments : List Text} {files : List (Text × List UInt8)}
    {settings : Settings} {notices : List Notice} (hinvokes : Invokes arguments .convert a)
    (hvalues : badValue? w.files .convert a = none) (hne : files ≠ [])
    (hoperands : a.operands = files.map Prod.fst) (hfiles : AreFiles w files)
    (hsettings : settingsFor w.files (a.value? .config) a.overrides = .ok (settings, notices)) :
    let texts := textsOf files
    let body := fun size => (convertTexts settings size texts).html
    1 ≤ a.chunkSize ∧
    (run w arguments).ending =
      (if Numeral.fitsWord a.chunkSize then
        emit w.files a.presentation.output
          (document settings a.presentation (body a.chunkSize.toNat))
      else .broken .chunkTooWide) ∧
    (Converter.convertAll settings texts.flatten).html
      = ((Stream.finalPackets 0 ⟨texts.flatten, .plain⟩).flatMap (Packet.blocks settings)).flatMap
        Html.Block.html ∧
    ∀ size, 1 ≤ size → Follows settings size texts (body size) := by
  intro texts body
  refine ⟨one_le_chunkSize hvalues, ?_, ?_,
    fun size hsize => follows_convertTexts settings hsize texts⟩
  · have hnames : a.operands ≠ [] := by
      rw [hoperands]
      exact fun h => hne (List.map_eq_nil_iff.mp h)
    have hinputs : inputs w a.operands = .ok texts := hoperands ▸ inputs_of_files hfiles
    rw [ending_run hinvokes]
    show (convert w a).ending = _
    unfold convert
    rw [hvalues]
    dsimp only
    rw [Arguments.inputNames, if_neg hnames, hinputs]
    dsimp only
    rw [hsettings]
    dsimp only
    by_cases hfits : Numeral.fitsWord a.chunkSize = true
    · rw [if_pos hfits, hfits]
      rfl
    · rw [if_neg hfits, eq_false_of_ne_true hfits]
      rfl
  · rw [convertAll_packets, html_blocks]

/-- A sequence that begins in one file and ends in the next, and a file that is named twice. -/
theorem run_convert_files_straddling :
    let front : List UInt8 := [0x78, 0x1b, 0x5b, 0x31]
    let back : List UInt8 := [0x6d, 0x62, 0x63]
    let w : World :=
      { files := ⟨[(["a".toText], .file front), (["b".toText], .file back)]⟩
        respond := fun _ => .failure .connect [] }
    let arguments := ["convert".toText, "--chunk-size".toText, ['2'], ['a'], ['b'], ['a']]
    let a : Arguments := { given := [⟨.chunkSize, some ['2']⟩], operands := [['a'], ['b'], ['a']] }
    let files : List (Text × List UInt8) := [(['a'], front), (['b'], back), (['a'], front)]
    Invokes arguments .convert a ∧ badValue? w.files .convert a = none ∧
      a.operands = files.map Prod.fst ∧ AreFiles w files ∧
      settingsFor w.files (a.value? .config) a.overrides = .ok ({}, []) ∧
      ∃ body, (run w arguments).ending = .done body none ∧ Follows {} 2 (textsOf files) body := by
  intro front back w arguments a files
  have hinvokes : Invokes arguments .convert a :=
    ⟨⟨{ operands := arguments }, _, eq_ok_of_toOption (by decide +kernel), rfl, rfl,
      eq_ok_of_toOption (by decide +kernel)⟩, by decide⟩
  have hvalues : badValue? w.files .convert a = none := by decide +kernel
  have hsettings : settingsFor w.files (a.value? .config) a.overrides = .ok ({}, []) := rfl
  have hfiles : AreFiles w files := by
    intro f hf
    simp only [files, List.mem_cons, List.not_mem_nil, or_false] at hf
    rcases hf with rfl | rfl | rfl
    · exact ⟨by decide, rfl⟩
    · exact ⟨by decide, rfl⟩
    · exact ⟨by decide, rfl⟩
  have hsize : a.chunkSize.toNat = 2 := by decide +kernel
  have hfits : Numeral.fitsWord a.chunkSize = true := by decide +kernel
  obtain ⟨-, hending, -, hfollows⟩ :=
    run_convert_files hinvokes hvalues (List.cons_ne_nil _ _) rfl hfiles hsettings
  rw [if_pos hfits, hsize] at hending
  have hprinted := hending.trans (emit_printed w.files (by decide +kernel))
  exact ⟨hinvokes, hvalues, rfl, hfiles, hsettings, _, hprinted, hfollows 2 (by decide)⟩

end Command

end TerminalMarkup
