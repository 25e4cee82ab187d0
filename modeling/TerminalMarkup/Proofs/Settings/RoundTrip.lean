/-
Settings are loaded as they were saved.

Every layer has its own inverse: members are found under their names because no two
names are the same, values are read as they are written, a file of settings is plain
ASCII and so has no line ending that reading could change, bytes decode to the text
they encode, and the path leads back to the file.  What is left here is to see that
the settings meet what each layer asks for: the seven names and the schemes of an
allow-list are distinct.

One thing is lost in JSON: the halves of a surrogate pair that stand side by side in a text
are read as one character.  So what is loaded is the settings with their pairs joined
(`joinPairs`).  Settings without such pairs (`Unpaired`) are loaded as they were, and among
them are all whose texts are made of characters.
-/
import TerminalMarkup.Proofs.Files
import TerminalMarkup.Proofs.Json.RoundTrip
import TerminalMarkup.Proofs.Text.Utf8
import TerminalMarkup.Settings.File

namespace TerminalMarkup.Settings

/-! ### Members -/

/-- The allow-list as a member. -/
def verdictMembers (list : AllowList) : List (Text × Json) :=
  list.entries.map fun (scheme, allowed) => (scheme, .scalar (.bool allowed))

/-- A verdict on a scheme, as it is written. -/
def verdictMember (verdict : Text × Bool) : Text × Json := (verdict.1, .scalar (.bool verdict.2))

/-- The settings as the members of an object. -/
def members (s : Settings) : List (Text × Json) :=
  [(escapeHtmlKey, .scalar (.bool s.escapeHtml)),
   (useClassesKey, .scalar (.bool s.useClasses)),
   (allowListKey, .object (verdictMembers s.allowList)),
   (boldStyleKey, .scalar (.text s.boldStyle)),
   (faintStyleKey, .scalar (.text s.faintStyle)),
   (italicStyleKey, .scalar (.text s.italicStyle)),
   (underlineStyleKey, .scalar (.text s.underlineStyle))]

theorem toJson_eq (s : Settings) : s.toJson = .object s.members := rfl

theorem keys_members (s : Settings) : Entries.keys s.members = knownKeys := rfl

theorem nodup_members (s : Settings) : (Entries.keys s.members).Nodup := by
  rw [keys_members]
  decide

/-- Settings have no member that is not known. -/
theorem noticesFor_members (s : Settings) : noticesFor s.members = [] := by
  have hkeys : s.members.map Prod.fst = knownKeys := rfl
  have hknown : knownKeys.filter (!knownKeys.contains ·) = [] := by decide
  have hunknown : unknownKeys s.members = [] := by
    rw [unknownKeys, hkeys, hknown, List.mergeSort_nil]
  rw [noticesFor, if_pos hunknown]

/-! ### Texts -/

/-- The texts in settings: the four declarations and the schemes. -/
def texts (s : Settings) : List Text := s.styleTexts ++ Entries.keys s.allowList.entries

/-- No text in the settings has the halves of a surrogate pair side by side. -/
def Unpaired (s : Settings) : Prop := ∀ t ∈ s.texts, Json.Unpaired t

instance (s : Settings) : Decidable s.Unpaired :=
  inferInstanceAs (Decidable (∀ t ∈ s.texts, Json.Unpaired t))

/-- Settings whose texts are made of characters have no surrogate pairs. -/
theorem unpaired_of_chars {s : Settings} (h : ∀ t ∈ s.texts, ∃ chars, t = .ofChars chars) :
    s.Unpaired := by
  intro t ht
  obtain ⟨chars, rfl⟩ := h t ht
  exact Json.unpaired_ofChars chars

/-- A verdict with the pairs in its scheme joined. -/
def joinVerdict (verdict : Text × Bool) : Text × Bool := (Json.joinPairs verdict.1, verdict.2)

/-- The settings with the pairs in their texts joined.  Schemes that are the same then have the last
verdict that one of them had. -/
def joinPairs (s : Settings) : Settings :=
  { s with
    allowList := .ofPairs (s.allowList.entries.map joinVerdict)
    boldStyle := Json.joinPairs s.boldStyle
    faintStyle := Json.joinPairs s.faintStyle
    italicStyle := Json.joinPairs s.italicStyle
    underlineStyle := Json.joinPairs s.underlineStyle }

theorem ofPairs_entries (list : AllowList) : AllowList.ofPairs list.entries = list := by
  obtain ⟨entries, hdistinct⟩ := list
  simp only [AllowList.ofPairs, Entries.ofPairs_of_nodup hdistinct]

/-- Where the declarations have no pairs, only the allow-list changes. -/
theorem joinPairs_of_styleTexts {s : Settings} (h : ∀ t ∈ s.styleTexts, Json.Unpaired t) :
    s.joinPairs = { s with allowList := s.joinPairs.allowList } := by
  have hjoined := fun t ht => Json.joinPairs_of_unpaired (h t ht)
  simp only [styleTexts, List.forall_mem_cons] at hjoined
  obtain ⟨hbold, hfaint, hitalic, hunderline, -⟩ := hjoined
  rw [joinPairs, hbold, hfaint, hitalic, hunderline]

/-- Where there are no pairs, none are joined. -/
theorem joinPairs_of_unpaired {s : Settings} (h : s.Unpaired) : s.joinPairs = s := by
  obtain ⟨hstyles, hschemes⟩ := List.forall_mem_append.mp h
  have hverdicts : s.allowList.entries.map joinVerdict = s.allowList.entries := by
    refine (List.map_congr_left fun verdict hverdict => ?_).trans (List.map_id _)
    rw [joinVerdict, Json.joinPairs_of_unpaired (hschemes _ (List.mem_map_of_mem hverdict))]
    rfl
  have hlist : s.joinPairs.allowList = s.allowList := by
    rw [joinPairs, hverdicts, ofPairs_entries]
  rw [joinPairs_of_styleTexts hstyles, hlist]

/-! ### Writing -/

theorem readAs_verdictMembers (list : AllowList) :
    Json.ReadAs 1 (.object (verdictMembers list))
      (.object (verdictMembers (.ofPairs (list.entries.map joinVerdict)))) := by
  have hmembers : List.Forall₂ (Json.MemberReadAs 2) (list.entries.map verdictMember)
      ((list.entries.map joinVerdict).map verdictMember) := by
    rw [List.map_map, List.forall₂_map_left_iff, List.forall₂_map_right_iff, List.forall₂_same]
    exact fun verdict _ => ⟨rfl, Json.readAs_bool _ _⟩
  have hentries : Entries.ofPairs ((list.entries.map joinVerdict).map verdictMember)
      = verdictMembers (.ofPairs (list.entries.map joinVerdict)) :=
    Entries.ofPairs_map (fun b : Bool => Json.scalar (.bool b)) (list.entries.map joinVerdict)
  rw [← hentries]
  exact Json.readAs_object hmembers

theorem readAs_toJson (s : Settings) : Json.ReadAs 0 s.toJson s.joinPairs.toJson := by
  have hmembers : List.Forall₂ (Json.MemberReadAs 1) s.members s.joinPairs.members := by
    refine .cons ⟨rfl, Json.readAs_bool _ _⟩ (.cons ⟨rfl, Json.readAs_bool _ _⟩ ?_)
    refine .cons ⟨rfl, readAs_verdictMembers _⟩ ?_
    refine .cons ⟨rfl, Json.readAs_text _ _⟩ (.cons ⟨rfl, Json.readAs_text _ _⟩ ?_)
    exact .cons ⟨rfl, Json.readAs_text _ _⟩ (.cons ⟨rfl, Json.readAs_text _ _⟩ .nil)
  have hobject := Json.readAs_object hmembers
  rw [Entries.ofPairs_of_nodup (nodup_members _), ← toJson_eq, ← toJson_eq] at hobject
  exact hobject

/-- Reading the file changes no line ending: it has line feeds only. -/
theorem unify_write (s : Settings) : Newline.unify s.write = s.write := by
  refine Newline.unify_of_not_mem ?_
  intro hmem
  rcases List.mem_append.mp hmem with hmem | hmem
  · exact absurd ((readAs_toJson s).plain _ hmem) (by decide)
  · exact absurd hmem (by decide)

/-- The text of a settings file has bytes. -/
theorem exists_bytes_write (s : Settings) : ∃ bytes, Utf8.encode? s.write = some bytes := by
  refine Option.isSome_iff_exists.mp (Utf8.isSome_encode?_iff.mpr fun c hc => ?_)
  rcases List.mem_append.mp hc with hc | hc
  · exact Json.isScalar_of_isPlain ((readAs_toJson s).plain c hc)
  · rw [List.mem_singleton.mp hc]
    rfl

/-! ### Reading -/

theorem member?_members {s : Settings} {key : Text} {v : Json} (h : (key, v) ∈ s.members) :
    Json.member? key s.members = some v :=
  Entries.get?_of_mem (nodup_members s) h

theorem boolMember_members {s : Settings} (key : Text) (b : Bool)
    (h : (key, .scalar (.bool b)) ∈ s.members) (default : Bool) :
    boolMember s.members key default = .ok b := by
  rw [boolMember, member?_members h]

theorem textMember_members {s : Settings} (key t : Text)
    (h : (key, .scalar (.text t)) ∈ s.members) (default : Text) :
    textMember s.members key default = .ok t := by
  rw [textMember, member?_members h]

theorem verdicts_eq_ok_iff {entries : List (Text × Json)} {pairs : List (Text × Bool)} :
    verdicts entries = .ok pairs ↔ entries = pairs.map verdictMember := by
  induction entries generalizing pairs with
  | nil => cases pairs <;> simp [verdicts]
  | cons entry rest ih =>
      obtain ⟨scheme, v⟩ := entry
      by_cases hv : ∃ b, v = .scalar (.bool b)
      · obtain ⟨b, rfl⟩ := hv
        cases pairs with
        | nil => cases hrest : verdicts rest <;> simp [verdicts, hrest, Except.map]
        | cons pair pairs =>
            rw [List.map_cons, List.cons.injEq, ← ih]
            cases hrest : verdicts rest <;> simp [verdicts, hrest, verdictMember, Except.map,
              Prod.ext_iff]
      · have hnot : ∀ b, v ≠ .scalar (.bool b) := not_exists.mp hv
        have herror : verdicts ((scheme, v) :: rest) = .error .notVerdicts := by
          simp [verdicts, hnot]
        refine iff_of_false (by simp [herror]) fun h => ?_
        cases pairs with
        | nil => cases h
        | cons pair pairs =>
            obtain ⟨hentry, -⟩ := List.cons.inj h
            exact hnot pair.2 (Prod.ext_iff.mp hentry).2

theorem verdicts_verdictMembers (list : AllowList) :
    verdicts (verdictMembers list) = .ok list.entries :=
  verdicts_eq_ok_iff.mpr rfl

theorem allowListMember_members (s : Settings) (default : AllowList) :
    allowListMember s.members default = .ok s.allowList := by
  have hfound : Json.member? allowListKey s.members
      = some (.object (verdictMembers s.allowList)) :=
    member?_members (by simp [members])
  rw [allowListMember, hfound]
  simp only [verdicts_verdictMembers, Except.map, ofPairs_entries]

theorem ofMembers_members (s : Settings) : ofMembers s.members = .ok s := by
  rw [ofMembers, boolMember_members escapeHtmlKey s.escapeHtml (by simp [members]),
    boolMember_members useClassesKey s.useClasses (by simp [members]),
    textMember_members boldStyleKey s.boldStyle (by simp [members]),
    textMember_members faintStyleKey s.faintStyle (by simp [members]),
    textMember_members italicStyleKey s.italicStyle (by simp [members]),
    textMember_members underlineStyleKey s.underlineStyle (by simp [members]),
    allowListMember_members]
  rfl

/-! ### Files -/

/-- What is in a file of settings gives the settings, and nothing is to be told. -/
theorem ofBytes_write (s : Settings) {bytes : List UInt8}
    (hbytes : Utf8.encode? s.write = some bytes) (path : Text) :
    ofBytes path bytes = .ok (s.joinPairs, []) := by
  have hread : Json.read s.write = .ok (.object s.joinPairs.members) :=
    Json.read_print (readAs_toJson s)
  rw [ofBytes, Utf8.decode_of_encode? hbytes]
  simp only [unify_write s, ofText, hread, ofMembers_members, noticesFor_members]

/-- Saving makes a file, and the settings are loaded from it with their pairs joined. -/
theorem exists_saved {files : Files} {path : Text} {place : Files.Location}
    (h : files.target path = .ok place) (s : Settings) :
    ∃ bytes, save files path s = .ok (files.put place bytes) ∧
      load (files.put place bytes) path = .ok (s.joinPairs, []) := by
  obtain ⟨bytes, hbytes⟩ := exists_bytes_write s
  refine ⟨bytes, ?_, ?_⟩
  · simp only [save, h, Files.store, hbytes, Option.getD_some]
  · rw [load, Files.read_put h]
    exact ofBytes_write s hbytes path

/--
**Settings are loaded as they were saved.**  Wherever a file can be written, saving makes one,
and loading it gives the same settings, with the schemes of the allow-list in the same order,
and nothing to be told about.  The texts of the settings may be any but those in which the halves
of a surrogate pair stand side by side, so they may be all that are made of characters.
-/
theorem load_save {files : Files} {path : Text} {place : Files.Location}
    (h : files.target path = .ok place) {s : Settings} (hs : s.Unpaired) :
    ∃ saved, save files path s = .ok saved ∧ load saved path = .ok (s, []) := by
  obtain ⟨bytes, hsave, hload⟩ := exists_saved h s
  rw [joinPairs_of_unpaired hs] at hload
  exact ⟨_, hsave, hload⟩

/-- Over a file that is there, with every kind of escape, a surrogate that stands alone, and schemes
that no URL has. -/
theorem load_save_over_old_file :
    let files : Files := ⟨[(["etc".toText, "cfg".toText], .file [0x7b, 0xff])]⟩
    let path := "etc/./cfg".toText
    let s : Settings :=
      { escapeHtml := false
        useClasses := true
        allowList := .ofPairs [("tel".toText, false), ([], true), ("\"\\é".toText, false)]
        boldStyle := "\"\\/\t\r\n\x08\x0c\x00\x1f".toText
        faintStyle := []
        italicStyle := "\x7f\u0080é\u2028\ud7ff\ue000\uffff".toText
        underlineStyle :=
          .surrogate 0x3d :: ['😀', Char.ofNat 0x10ffff, '\\', 'u', 'd', 'e', '0', '0'] }
    files.target path = .ok ["etc".toText, "cfg".toText] ∧ s.Unpaired ∧
      ∃ saved, save files path s = .ok saved ∧ load saved path = .ok (s, []) := by
  intro files path s
  have htarget : files.target path = .ok ["etc".toText, "cfg".toText] := rfl
  have hs : s.Unpaired := by decide +kernel
  exact ⟨htarget, hs, load_save htarget hs⟩

end TerminalMarkup.Settings
