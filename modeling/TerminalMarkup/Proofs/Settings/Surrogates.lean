/-
Declarations that were loaded have no surrogate pairs.

What is lost when settings are saved and loaded are surrogate pairs: their halves are joined.
No such halves come out of the reader (`Json.noPairs_of_read`), and the declarations that a
file leaves as they are have no surrogates at all.  So the declarations of settings that come
from a file are not changed any more (`unpaired_styleTexts_of_load`).
-/
import TerminalMarkup.Proofs.Json.Surrogates
import TerminalMarkup.Proofs.Settings.Members

namespace TerminalMarkup

namespace Json

variable {t : Text}

/-! ### Texts without surrogates -/

theorem bare_ofChars (chars : List Char) : Bare (.ofChars chars) := by
  intro c hc
  obtain ⟨d, -, rfl⟩ := List.mem_map.mp hc
  rfl

theorem bare_unify (h : Bare t) : Bare (Newline.unify t) := by
  suffices ∀ done afterReturn, Bare done → Bare (Newline.unifyFrom afterReturn done t) from
    this [] false (List.forall_mem_nil _)
  induction t with
  | nil => exact fun done _ hdone c hc => hdone c (List.mem_reverse.mp hc)
  | cons c rest ih =>
      obtain ⟨hc, hrest⟩ := List.forall_mem_cons.mp h
      intro done afterReturn hdone
      rw [Newline.unifyFrom]
      split
      · exact ih hrest _ _ (List.forall_mem_cons.mpr ⟨rfl, hdone⟩)
      split
      · exact ih hrest _ _ hdone
      · exact ih hrest _ _ (List.forall_mem_cons.mpr ⟨hc, hdone⟩)

end Json

namespace Settings

open Json

variable {members : List (Text × Json)} {s : Settings}

/-! ### Members -/

theorem NoPairs.of_member? (h : NoPairs (.object members)) {name : Text} {v : Json}
    (hv : member? name members = some v) : NoPairs v := by
  cases h with
  | object hnames hvalues => exact hvalues _ (Entries.mem_of_get? hv)

theorem unpaired_textMember {key default t : Text} (h : NoPairs (.object members))
    (hdefault : Json.Unpaired default) (ht : textMember members key default = .ok t) :
    Json.Unpaired t := by
  unfold textMember at ht
  split at ht
  · cases ht
    exact hdefault
  · rename_i hmember
    cases ht
    cases NoPairs.of_member? h hmember with
    | scalar htext => exact htext _ rfl
  · cases ht

theorem unpaired_styleTexts (h : NoPairs (.object members)) (hs : ofMembers members = .ok s) :
    ∀ t ∈ s.styleTexts, Json.Unpaired t := by
  obtain ⟨-, -, hbold, hfaint, hitalic, hunderline, -⟩ := ofMembers_eq_ok_iff.mp hs
  have hdefault : ∀ t ∈ ({} : Settings).styleTexts, Json.Unpaired t := by decide
  simp only [styleTexts, List.forall_mem_cons] at hdefault ⊢
  obtain ⟨hbold', hfaint', hitalic', hunderline', hnone⟩ := hdefault
  exact ⟨unpaired_textMember h hbold' hbold, unpaired_textMember h hfaint' hfaint,
    unpaired_textMember h hitalic' hitalic, unpaired_textMember h hunderline' hunderline, hnone⟩

/-- **Declarations that were loaded have no surrogate pairs.** -/
theorem unpaired_styleTexts_of_load {files : Files} {path : Text} {notices : List Notice}
    (h : load files path = .ok (s, notices)) : ∀ t ∈ s.styleTexts, Json.Unpaired t := by
  unfold load at h
  split at h
  · cases h
  unfold ofBytes at h
  split at h
  · cases h
  rename_i t hdecode
  obtain ⟨chars, rfl, -⟩ := Utf8.encode?_eq_some.mp (Utf8.encode?_of_decode hdecode)
  have hbare : Bare (Newline.unify (.ofChars chars)) := bare_unify (bare_ofChars chars)
  unfold ofText at h
  split at h
  · cases h
  · cases h
  · rename_i members hread
    split at h
    · cases h
    · rename_i s' hs
      cases h
      exact unpaired_styleTexts (noPairs_of_read hbare hread) hs
  · cases h

end Settings

end TerminalMarkup
