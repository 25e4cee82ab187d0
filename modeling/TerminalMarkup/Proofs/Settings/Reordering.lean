/-
Neither the order of members nor what else is in an object makes a difference.

Every member is looked up by its name, so two objects with the same members for settings
give the same settings, however they are ordered and whatever else they have
(`ofMembers_of_sameKnown`).  The order inside an allow-list is kept, and is all that may
differ between the settings of two objects that have it differently
(`ofMembers_of_reordered`).

`take` is the reading of an object as it goes on, with a log that keeps what has been
written to it even if the reading fails.  Nothing is written before the last member has
been read, so a reading that fails has told nothing.
-/
import Mathlib.Data.List.Perm.Basic
import TerminalMarkup.Proofs.Settings.Members
import TerminalMarkup.Proofs.Text.Order

namespace TerminalMarkup.Settings

variable {members members' : List (Text × Json)}

/-! ### The order of members -/

/-- Two objects have the same known members, in whatever order, and whatever else there is. -/
def SameKnown (members members' : List (Text × Json)) : Prop :=
  ∀ key : Key, ∀ v, (key.name, v) ∈ members ↔ (key.name, v) ∈ members'

theorem SameKnown.of_perm (h : members.Perm members') : SameKnown members members' :=
  fun _ _ => h.mem_iff

theorem SameKnown.member?_eq (hobject : IsObject members) (hobject' : IsObject members')
    (h : SameKnown members members') (key : Key) :
    Json.member? key.name members = Json.member? key.name members' :=
  Entries.get?_eq_of_mem_iff hobject.names hobject'.names (h key)

theorem boolMember_congr {key : Text}
    (h : Json.member? key members = Json.member? key members') (default : Bool) :
    boolMember members key default = boolMember members' key default := by
  rw [boolMember, boolMember, h]

theorem textMember_congr {key : Text}
    (h : Json.member? key members = Json.member? key members') (default : Text) :
    textMember members key default = textMember members' key default := by
  rw [textMember, textMember, h]

theorem allowListMember_congr
    (h : Json.member? allowListKey members = Json.member? allowListKey members')
    (default : AllowList) :
    allowListMember members default = allowListMember members' default := by
  rw [allowListMember, allowListMember, h]

/-- What settings are read hangs on what is found under the names of settings, and on what list is
made of what is found for the allow-list. -/
theorem ofMembers_congr
    (hothers : ∀ key : Key, key ≠ .allowList →
      Json.member? key.name members = Json.member? key.name members')
    (hlist : ∀ default, allowListMember members default = allowListMember members' default) :
    ofMembers members = ofMembers members' := by
  have hescape := boolMember_congr (hothers .escapeHtml (by decide))
  have hclasses := boolMember_congr (hothers .useClasses (by decide))
  have hbold := textMember_congr (hothers .boldStyle (by decide))
  have hfaint := textMember_congr (hothers .faintStyle (by decide))
  have hitalic := textMember_congr (hothers .italicStyle (by decide))
  have hunderline := textMember_congr (hothers .underlineStyle (by decide))
  simp only [Key.name] at hescape hclasses hbold hfaint hitalic hunderline
  simp only [ofMembers, hescape, hclasses, hbold, hfaint, hitalic, hunderline, hlist]

/-- **Only known members count, wherever they stand.** -/
theorem ofMembers_of_sameKnown (hobject : IsObject members) (hobject' : IsObject members')
    (h : SameKnown members members') : ofMembers members' = ofMembers members := by
  have hlookup : ∀ key : Key, Json.member? key.name members' = Json.member? key.name members :=
    fun key => (h.member?_eq hobject hobject' key).symm
  exact ofMembers_congr (fun key _ => hlookup key) (allowListMember_congr (hlookup .allowList))

theorem IsObject.of_perm (hobject : IsObject members) (h : members.Perm members') :
    IsObject members' := by
  have hnames : (Entries.keys members').Nodup := (h.map Prod.fst).nodup hobject.names
  have hlist : Json.member? allowListKey members = Json.member? allowListKey members' :=
    Entries.get?_eq_of_mem_iff hobject.names hnames fun _ => h.mem_iff
  refine ⟨hnames, ?_, ?_⟩
  · intro entries hfound
    exact hobject.schemes entries (hlist.trans hfound)
  · intro items hfound
    exact hobject.items items (hlist.trans hfound)

/-- Two objects have the same known members, but for the order of the entries of an allow-list. -/
structure Reordered (members members' : List (Text × Json)) : Prop where
  others : ∀ key : Key, key ≠ .allowList → ∀ v, (key.name, v) ∈ members ↔ (key.name, v) ∈ members'
  allowList : ∃ entries entries', (allowListKey, .object entries) ∈ members ∧
    (allowListKey, .object entries') ∈ members' ∧ entries.Perm entries'

/-- Settings are the same, but for the order of the entries of their allow-lists. -/
def SameButOrder (s s' : Settings) : Prop :=
  s' = { s with allowList := s'.allowList } ∧ s.allowList.entries.Perm s'.allowList.entries

/-- Two readings come to the same, but for the order of the entries of an allow-list. -/
def AlikeButOrder (r r' : Except Fault Settings) : Prop :=
  (∃ fault, r = .error fault ∧ r' = .error fault) ∨
    ∃ s s', r = .ok s ∧ r' = .ok s' ∧ SameButOrder s s'

theorem faultOf_verdicts_of_perm {entries entries' : List (Text × Json)}
    (h : entries.Perm entries') : faultOf (verdicts entries) = faultOf (verdicts entries') := by
  have hok : (∃ pairs, verdicts entries = .ok pairs) ↔ ∃ pairs, verdicts entries' = .ok pairs := by
    rw [exists_verdicts_iff, exists_verdicts_iff]
    simp only [h.mem_iff]
  cases hverdicts : verdicts entries with
  | ok pairs => exact (faultOf_eq_none.mpr (hok.mp ⟨pairs, hverdicts⟩)).symm
  | error fault =>
      cases hverdicts' : verdicts entries' with
      | ok pairs =>
          obtain ⟨pairs', h'⟩ := hok.mpr ⟨pairs, hverdicts'⟩
          cases hverdicts.symm.trans h'
      | error fault' =>
          rw [eq_notVerdicts_of_error hverdicts, eq_notVerdicts_of_error hverdicts']

theorem verdicts_of_perm {entries entries' : List (Text × Json)} {pairs : List (Text × Bool)}
    (h : entries.Perm entries') (hok : verdicts entries = .ok pairs) :
    ∃ pairs', verdicts entries' = .ok pairs' ∧ pairs.Perm pairs' := by
  have hall := exists_verdicts_iff.mp ⟨pairs, hok⟩
  obtain ⟨pairs', hok'⟩ := exists_verdicts_iff.mpr fun e he => hall e (h.mem_iff.mpr he)
  refine ⟨pairs', hok', ?_⟩
  rw [← List.map_perm_map_iff verdictMember_injective, ← verdicts_eq_ok_iff.mp hok,
    ← verdicts_eq_ok_iff.mp hok']
  exact h

theorem allowListMember_of_object {entries : List (Text × Json)} {default list : AllowList}
    (hfound : Json.member? allowListKey members = some (.object entries)) :
    allowListMember members default = .ok list ↔
      ∃ pairs, verdicts entries = .ok pairs ∧ .ofPairs pairs = list := by
  have hmap : allowListMember members default = (verdicts entries).map .ofPairs := by
    unfold allowListMember
    rw [hfound]
  rw [hmap]
  cases verdicts entries <;> simp [Except.map]

theorem Reordered.member?_eq (hobject : IsObject members) (hobject' : IsObject members')
    (h : Reordered members members') {key : Key} (hkey : key ≠ .allowList) :
    Json.member? key.name members = Json.member? key.name members' :=
  Entries.get?_eq_of_mem_iff hobject.names hobject'.names (h.others key hkey)

/-- The order of the entries makes no difference to what is wrong with them. -/
theorem Reordered.fault?_eq (hobject : IsObject members) (hobject' : IsObject members')
    (h : Reordered members members') (key : Key) : key.fault? members = key.fault? members' := by
  by_cases hkey : key = .allowList
  · obtain ⟨entries, entries', hmem, hmem', hperm⟩ := h.allowList
    have hfound := Entries.get?_of_mem hobject.names hmem
    have hfound' := Entries.get?_of_mem hobject'.names hmem'
    subst hkey
    show (Json.member? allowListKey members).bind _ = (Json.member? allowListKey members').bind _
    rw [Json.member?, Json.member?, hfound, hfound']
    exact faultOf_verdicts_of_perm hperm
  · rw [Key.fault?, Key.fault?, h.member?_eq hobject hobject' hkey]

/-- Only the allow-list is read otherwise. -/
theorem Reordered.read (hobject : IsObject members) (hobject' : IsObject members')
    (h : Reordered members members') {s : Settings} (hread : Read members s) {list : AllowList}
    (hlist : allowListMember members' ({} : Settings).allowList = .ok list) :
    Read members' { s with allowList := list } := by
  have hlookup : ∀ key : Key, key ≠ .allowList →
      Json.member? key.name members = Json.member? key.name members' :=
    fun _ => h.member?_eq hobject hobject'
  refine ⟨?_, ?_, ?_, ?_, ?_, ?_, hlist⟩
  · exact (boolMember_congr (hlookup .escapeHtml (by decide)) _).symm.trans hread.escapeHtml
  · exact (boolMember_congr (hlookup .useClasses (by decide)) _).symm.trans hread.useClasses
  · exact (textMember_congr (hlookup .boldStyle (by decide)) _).symm.trans hread.boldStyle
  · exact (textMember_congr (hlookup .faintStyle (by decide)) _).symm.trans hread.faintStyle
  · exact (textMember_congr (hlookup .italicStyle (by decide)) _).symm.trans hread.italicStyle
  · exact (textMember_congr (hlookup .underlineStyle (by decide)) _).symm.trans
      hread.underlineStyle

/-- **The order of the entries of an allow-list changes nothing but the order of its entries.** -/
theorem ofMembers_of_reordered (hobject : IsObject members) (hobject' : IsObject members')
    (h : Reordered members members') : AlikeButOrder (ofMembers members) (ofMembers members') := by
  cases hresult : ofMembers members with
  | error fault =>
      have hsame : faultOf (ofMembers members') = some fault := by
        rw [faultOf_ofMembers, ← funext (h.fault?_eq hobject hobject'), ← faultOf_ofMembers,
          hresult]
        rfl
      exact Or.inl ⟨fault, rfl, faultOf_eq_some.mp hsame⟩
  | ok s =>
      have hread := ofMembers_eq_ok_iff.mp hresult
      obtain ⟨entries, entries', hmem, hmem', hperm⟩ := h.allowList
      have hfound : Json.member? allowListKey members = some (.object entries) :=
        Entries.get?_of_mem hobject.names hmem
      have hfound' : Json.member? allowListKey members' = some (.object entries') :=
        Entries.get?_of_mem hobject'.names hmem'
      obtain ⟨pairs, hok, hlist⟩ := (allowListMember_of_object hfound).mp hread.allowList
      obtain ⟨pairs', hok', hpairs⟩ := verdicts_of_perm hperm hok
      have hread' := h.read hobject hobject' hread
        ((allowListMember_of_object hfound').mpr ⟨pairs', hok', rfl⟩)
      have hentries := entries_ofPairs (hobject.schemes entries hfound) hok
      have hentries' := entries_ofPairs (hobject'.schemes entries' hfound') hok'
      refine Or.inr ⟨s, _, rfl, ofMembers_eq_ok_iff.mpr hread', rfl, ?_⟩
      rw [← hlist, hentries]
      exact hpairs.trans (.of_eq hentries'.symm)

/-! ### What is told -/

/-- The names are those that mean nothing, each once and in dictionary order. -/
structure ListsUnknown (members : List (Text × Json)) (names : List Text) : Prop where
  sorted : names.Pairwise fun s t => Text.notAfter s t = true
  nodup : names.Nodup
  mem_iff : ∀ name, name ∈ names ↔ name ∈ Entries.keys members ∧ ∀ key : Key, name ≠ key.name

theorem mem_knownKeys_iff {name : Text} : name ∈ knownKeys ↔ ∃ key : Key, name = key.name := by
  constructor
  · intro h
    simp only [knownKeys, List.mem_cons, List.not_mem_nil, or_false] at h
    rcases h with rfl | rfl | rfl | rfl | rfl | rfl | rfl
    · exact ⟨.escapeHtml, rfl⟩
    · exact ⟨.useClasses, rfl⟩
    · exact ⟨.allowList, rfl⟩
    · exact ⟨.boldStyle, rfl⟩
    · exact ⟨.faintStyle, rfl⟩
    · exact ⟨.italicStyle, rfl⟩
    · exact ⟨.underlineStyle, rfl⟩
  · intro h
    obtain ⟨key, rfl⟩ := h
    cases key <;> simp [knownKeys, Key.name]

theorem listsUnknown_unknownKeys (h : (Entries.keys members).Nodup) :
    ListsUnknown members (unknownKeys members) := by
  refine ⟨Text.pairwise_mergeSort _, ?_, ?_⟩
  · exact (List.mergeSort_perm ..).nodup_iff.mpr (h.filter _)
  · intro name
    have hknown : (!knownKeys.contains name) = true ↔ ∀ key : Key, name ≠ key.name := by
      rw [Bool.not_eq_true', ← Bool.not_eq_true, List.contains_iff_mem, mem_knownKeys_iff]
      exact not_exists
    rw [unknownKeys, List.mem_mergeSort, List.mem_filter, hknown, Entries.keys]

theorem unknownKeys_of_perm (h : members.Perm members') :
    unknownKeys members = unknownKeys members' :=
  Text.mergeSort_eq_of_perm ((h.map Prod.fst).filter _)

/-! ### Reading with a log -/

/-- What is told is told at the end. -/
theorem run_take (log : List Notice) : (take members).run.run log =
    match ofMembers members with
    | .ok s => (.ok s, log ++ noticesFor members)
    | .error fault => (.error fault, log) := by
  unfold take
  cases ofMembers members <;> rfl

theorem line_unknownKeys (names : List Text) : (Notice.unknownKeys names).line =
    "WARNING:ansihtml.config:Ignoring unknown config keys: ".toText
      ++ ", ".toText.intercalate names := by
  have hwords : "WARNING:ansihtml.config:Ignoring unknown config keys: ".toText =
      "WARNING".toText ++ ":".toText ++ "ansihtml.config".toText ++ ":".toText ++
        "Ignoring unknown config keys: ".toText := rfl
  rw [hwords, List.append_assoc _ _ (", ".toText.intercalate names)]
  rfl

/-- **Objects give settings if their members are typed, and only then is anything told.**

An object in which every name comes once gives settings just if each of the seven members that
is there is of its type, and the settings are then what these members say.  What is told is one
warning with the unknown names, if there are any.  If a member is not of its type, the first in
the order of reading is named, and nothing is told.  The order of members makes no difference to
the reading, nor do unknown members to the settings; the order inside an allow-list makes none
but to the order of its entries. -/
theorem take_iff_typed (hobject : IsObject members) (log : List Notice) :
    ∃ names, ListsUnknown members names ∧
      (Notice.unknownKeys names).line =
        "WARNING:ansihtml.config:Ignoring unknown config keys: ".toText
          ++ ", ".toText.intercalate names ∧
      ((∃ s, ofMembers members = .ok s) ↔ ∀ key : Key, key.IsTyped members) ∧
      (∀ s, ofMembers members = .ok s →
        (take members).run.run log
          = (.ok s, log ++ if names = [] then [] else [.unknownKeys names]) ∧
        ∀ key : Key, key.value s =
          ((Json.member? key.name members).map key.taken).getD (key.value {})) ∧
      (∀ fault, ofMembers members = .error fault →
        (take members).run.run log = (.error fault, log) ∧
        ∃ key v, Key.IsFirstFault members key v ∧
          fault.message = "'".toText ++ key.name ++ "' ".toText ++ key.kind.demand v) ∧
      (∀ members', members.Perm members' →
        (take members').run.run log = (take members).run.run log) ∧
      (∀ members', IsObject members' → SameKnown members members' →
        ofMembers members' = ofMembers members) ∧
      ∀ members', IsObject members' → Reordered members members' →
        AlikeButOrder (ofMembers members) (ofMembers members') := by
  have hnames := listsUnknown_unknownKeys hobject.names
  refine ⟨_, hnames, line_unknownKeys _, exists_ok_iff hobject, ?_, ?_, ?_, ?_, ?_⟩
  · intro s hok
    have hrun : (take members).run.run log = (.ok s, log ++ noticesFor members) := by
      rw [run_take, hok]
    exact ⟨hrun, value_of_ok hobject hok⟩
  · intro fault herror
    have hrun : (take members).run.run log = (.error fault, log) := by
      rw [run_take, herror]
    exact ⟨hrun, firstFault_of_error hobject herror⟩
  · intro members' hperm
    have hsame := ofMembers_of_sameKnown hobject (hobject.of_perm hperm) (SameKnown.of_perm hperm)
    have hnotices : noticesFor members' = noticesFor members := by
      rw [noticesFor, noticesFor, unknownKeys_of_perm hperm]
    rw [run_take, run_take, hsame, hnotices]
  · intro members' hobject' hknown
    exact ofMembers_of_sameKnown hobject hobject' hknown
  · intro members' hobject' hreordered
    exact ofMembers_of_reordered hobject hobject' hreordered

/-- With two members that mean nothing, and a list that has equal schemes in it. -/
theorem take_iff_typed_mixed :
    let members : List (Text × Json) :=
      [("zeta".toText, .scalar .null), (boldStyleKey, .scalar (.text "top:0".toText)),
       (allowListKey, .array [.scalar (.text "ftp".toText), .scalar (.int 1), .scalar (.bool true),
         .scalar (.text "ftp".toText)]),
       ("alpha".toText, .array [])]
    IsObject members ∧ ∃ names s, ListsUnknown members names ∧
      (take members).run.run [] = (.ok s, if names = [] then [] else [.unknownKeys names]) ∧
      ∀ key : Key, key.value s =
        ((Json.member? key.name members).map key.taken).getD (key.value {}) := by
  intro members
  have hobject : IsObject members := by
    refine ⟨by decide, ?_, ?_⟩
    · intro entries hfound
      cases hfound
    · intro items hfound item hitem
      obtain rfl := Json.array.inj (Option.some.inj hfound)
      simp only [List.mem_cons, List.not_mem_nil, or_false] at hitem
      rcases hitem with rfl | rfl | rfl | rfl
      · exact ⟨_, rfl, fun n h => by cases h⟩
      · refine ⟨_, rfl, fun n h => ?_⟩
        cases h
        decide
      · exact ⟨_, rfl, fun n h => by cases h⟩
      · exact ⟨_, rfl, fun n h => by cases h⟩
  obtain ⟨names, hnames, -, -, hok, -⟩ := take_iff_typed hobject []
  obtain ⟨hrun, hvalues⟩ := hok _ rfl
  exact ⟨hobject, names, _, hnames, hrun, hvalues⟩

end TerminalMarkup.Settings
