/-
When loading breaks off.

Most of what can be wrong with a settings file is explained to whoever asked for it.  Four
things are not: the path has a NUL in it, the bytes are no text, an integer has too
many digits, or the allow-list is a list with a list or an object in it.  `BreaksOff` says
in terms of the file when one of them is met, and `load_unexplained_iff` that loading
ends without an explanation exactly then.

The order of the checks shows in the last case.  The allow-list is read after all other
members, so a part in it is met only when these have the right types; if one of them has
not, that is explained first.
-/
import TerminalMarkup.Proofs.Files
import TerminalMarkup.Proofs.Json.Faults
import TerminalMarkup.Proofs.Text.Utf8
import TerminalMarkup.Settings.File

namespace TerminalMarkup

/-- The value is an array or an object. -/
def Json.HasParts (v : Json) : Prop := ∀ s, v ≠ .scalar s

/-- The boolean that a value is, if it is one. -/
def Json.bool? : Json → Option Bool
  | .scalar (.bool b) => some b
  | _ => none

/-- The text that a value is, if it is one. -/
def Json.text? : Json → Option Text
  | .scalar (.text t) => some t
  | _ => none

namespace Settings

/-! ### Members -/

/-- The fault is that a list of schemes has a list or an object in it. -/
def Fault.IsPart (fault : Fault) : Prop := fault = .listAsScheme ∨ fault = .objectAsScheme

variable {members : List (Text × Json)}

/-- Reads what is found of a member of one kind: nothing is the default, and a value of another
kind is a fault.  Booleans and texts are both read so. -/
def ofKind {α : Type} (kind? : Json → Option α) (fault : Fault) (default : α)
    (found : Option Json) : Except Fault α :=
  match found with
  | none => .ok default
  | some v =>
    match kind? v with
    | some a => .ok a
    | none => .error fault

/-- The member is missing, or of the kind. -/
def IsOfKind {α : Type} (kind? : Json → Option α) (members : List (Text × Json)) (key : Text) :
    Prop :=
  ∀ v, Json.member? key members = some v → ∃ a, kind? v = some a

theorem ofKind_ok_iff {α : Type} {kind? : Json → Option α} {fault : Fault} {default : α}
    {key : Text} :
    (∃ a, ofKind kind? fault default (Json.member? key members) = .ok a) ↔
      IsOfKind kind? members key := by
  unfold ofKind IsOfKind
  cases Json.member? key members with
  | none => simp
  | some v => cases hkind : kind? v <;> simp [hkind]

theorem ofKind_fault {α : Type} {kind? : Json → Option α} {fault e : Fault} {default : α}
    {found : Option Json} (hfault : ¬fault.IsPart)
    (h : ofKind kind? fault default found = .error e) : ¬e.IsPart := by
  unfold ofKind at h
  split at h
  · cases h
  · split at h
    · cases h
    · cases h
      exact hfault

theorem boolMember_eq (key : Text) (default : Bool) :
    boolMember members key default
      = ofKind Json.bool? (.notBoolean key) default (Json.member? key members) := by
  unfold boolMember
  cases Json.member? key members with
  | none => rfl
  | some v =>
      cases v with
      | scalar s => cases s <;> rfl
      | array items => rfl
      | object entries => rfl

theorem textMember_eq (key default : Text) :
    textMember members key default
      = ofKind Json.text? (.notText key) default (Json.member? key members) := by
  unfold textMember
  cases Json.member? key members with
  | none => rfl
  | some v =>
      cases v with
      | scalar s => cases s <;> rfl
      | array items => rfl
      | object entries => rfl

/-! ### The allow-list -/

theorem map_eq_error {ε α β : Type} {x : Except ε α} {f : α → β} {e : ε} :
    x.map f = .error e ↔ x = .error e := by
  cases x <;> simp [Except.map]

/-- A list of schemes is refused for its parts only, and always for those. -/
theorem scalars_fault_iff {items : List Json} :
    (∃ fault, scalars items = .error fault ∧ fault.IsPart) ↔ ∃ item ∈ items, item.HasParts := by
  induction items with
  | nil => simp [scalars]
  | cons item rest ih =>
      cases item with
      | scalar s =>
          have hnot : ¬(Json.scalar s).HasParts := fun h => h s rfl
          simp only [List.mem_cons, exists_eq_or_imp]
          rw [or_iff_right hnot, ← ih]
          simp only [scalars, map_eq_error]
      | array items =>
          have hparts : (Json.array items).HasParts := fun s => Json.noConfusion
          have hfault : Fault.listAsScheme.IsPart := Or.inl rfl
          exact iff_of_true ⟨_, rfl, hfault⟩ ⟨_, List.mem_cons_self, hparts⟩
      | object entries =>
          have hparts : (Json.object entries).HasParts := fun s => Json.noConfusion
          have hfault : Fault.objectAsScheme.IsPart := Or.inr rfl
          exact iff_of_true ⟨_, rfl, hfault⟩ ⟨_, List.mem_cons_self, hparts⟩

theorem verdicts_fault {entries : List (Text × Json)} {fault : Fault}
    (h : verdicts entries = .error fault) : ¬fault.IsPart := by
  fun_induction verdicts entries generalizing fault with
  | case1 => cases h
  | case2 scheme b rest ih =>
      cases hrest : verdicts rest with
      | ok entries =>
          rw [hrest] at h
          cases h
      | error fault' =>
          rw [hrest] at h
          cases h
          exact ih hrest
  | case3 entry rest hno =>
      cases h
      rintro (h | h) <;> cases h

/-- The allow-list is a list with a list or an object in it. -/
def HasPartAsScheme (members : List (Text × Json)) : Prop :=
  ∃ items, Json.member? allowListKey members = some (.array items) ∧ ∃ item ∈ items, item.HasParts

theorem allowListMember_fault_iff {default : AllowList} :
    (∃ fault, allowListMember members default = .error fault ∧ fault.IsPart) ↔
      HasPartAsScheme members := by
  unfold allowListMember HasPartAsScheme
  cases hfound : Json.member? allowListKey members with
  | none => simp
  | some v =>
      cases v with
      | scalar s => simp [Fault.IsPart]
      | array items =>
          simp only [Option.some.injEq, Json.array.injEq, exists_eq_left', ← scalars_fault_iff,
            map_eq_error]
      | object entries =>
          have hnot : ¬∃ fault, verdicts entries = .error fault ∧ fault.IsPart :=
            fun ⟨fault, h, hpart⟩ => verdicts_fault h hpart
          simpa [map_eq_error] using hnot

/-! ### All members -/

/-- The members that are read before the allow-list have the right types. -/
structure WellTyped (members : List (Text × Json)) : Prop where
  bools : ∀ key ∈ [escapeHtmlKey, useClassesKey], IsOfKind Json.bool? members key
  texts : ∀ key ∈ [boldStyleKey, faintStyleKey, italicStyleKey, underlineStyleKey],
    IsOfKind Json.text? members key

theorem bind_pure_eq_error {ε α β : Type} {x : Except ε α} {f : α → β} {e : ε} :
    (x >>= fun a => pure (f a)) = .error e ↔ x = .error e := by
  cases x <;> simp [bind, Except.bind, pure, Except.pure]

/-- A step that never fails on a part has to succeed for one to be met. -/
theorem bind_isPart_iff {α β : Type} {x : Except Fault α} {next : α → Except Fault β}
    (hx : ∀ fault, x = .error fault → ¬fault.IsPart) :
    (∃ fault, (x >>= next) = .error fault ∧ fault.IsPart) ↔
      ∃ a, x = .ok a ∧ ∃ fault, next a = .error fault ∧ fault.IsPart := by
  cases x with
  | ok a =>
      constructor
      · rintro ⟨fault, h, hpart⟩
        exact ⟨a, rfl, fault, h, hpart⟩
      · rintro ⟨b, h, fault, hnext, hpart⟩
        cases h
        exact ⟨fault, hnext, hpart⟩
  | error e =>
      constructor
      · rintro ⟨fault, h, hpart⟩
        cases h
        exact absurd hpart (hx _ rfl)
      · rintro ⟨b, h, -⟩
        cases h

theorem ofMembers_isPart_iff :
    (∃ fault, ofMembers members = .error fault ∧ fault.IsPart) ↔
      WellTyped members ∧ HasPartAsScheme members := by
  have hbool (key : Text) : ¬(Fault.notBoolean key).IsPart := by
    rintro (h | h) <;> cases h
  have htext (key : Text) : ¬(Fault.notText key).IsPart := by
    rintro (h | h) <;> cases h
  unfold ofMembers
  simp only [boolMember_eq, textMember_eq, bind_isPart_iff fun _ => ofKind_fault (hbool _),
    bind_isPart_iff fun _ => ofKind_fault (htext _), bind_pure_eq_error, exists_and_right,
    ofKind_ok_iff, allowListMember_fault_iff]
  constructor
  · rintro ⟨hescape, hclasses, hbold, hfaint, hitalic, hunderline, hparts⟩
    refine ⟨⟨?_, ?_⟩, hparts⟩
    · simpa using ⟨hescape, hclasses⟩
    · simpa using ⟨hbold, hfaint, hitalic, hunderline⟩
  · rintro ⟨⟨hbools, htexts⟩, hparts⟩
    simp only [List.forall_mem_cons] at hbools htexts
    exact ⟨hbools.1, hbools.2.1, htexts.1, htexts.2.1, htexts.2.2.1, htexts.2.2.2.1, hparts⟩

/-! ### Files -/

/-- What makes loading end without an explanation. -/
inductive BreaksOff (files : Files) (path : Text) : Prop
  /-- The path has a NUL in it. -/
  | nul (h : ('\x00' : CodePoint) ∈ path)
  /-- The bytes of the file are those of no text. -/
  | undecodable {bytes : List UInt8} (hread : files.read path = .ok bytes)
      (h : ∀ t, Utf8.encode? t ≠ some bytes)
  /-- Reading the text as JSON comes to an integer with too many digits. -/
  | longInteger {bytes : List UInt8} (hread : files.read path = .ok bytes) {t : Text}
      (ht : Utf8.encode? t = some bytes) {n position : Nat}
      (hjson : Json.read (Newline.unify t) = .error ⟨.tooManyDigits n, position⟩)
      (hrun : Json.HasLongRun n (Newline.unify t))
  /-- The text is an object, and its allow-list, the only member that is not well typed, is a list
  with a list or an object in it. -/
  | part {bytes : List UInt8} (hread : files.read path = .ok bytes) {t : Text}
      (ht : Utf8.encode? t = some bytes) {members : List (Text × Json)}
      (hjson : Json.read (Newline.unify t) = .ok (.object members)) (htyped : WellTyped members)
      (hpart : HasPartAsScheme members)

variable {files : Files} {path : Text}

theorem isExplained_unreadable_iff {fault : Files.Fault} :
    (LoadFault.unreadable path fault).isExplained = false ↔ fault = .embeddedNul := by
  cases fault <;> simp [LoadFault.isExplained]

theorem isExplained_wrongMember_iff {fault : Fault} :
    (LoadFault.wrongMember fault).isExplained = false ↔ fault.IsPart := by
  cases fault <;> simp [LoadFault.isExplained, Fault.IsPart]

/-- What breaks off the reading of a text. -/
theorem ofText_unexplained_iff {t : Text} :
    (∃ fault, ofText path t = .error fault ∧ fault.isExplained = false) ↔
      (∃ n position, Json.read t = .error ⟨.tooManyDigits n, position⟩) ∨
      ∃ members, Json.read t = .ok (.object members) ∧ WellTyped members ∧
        HasPartAsScheme members := by
  unfold ofText
  cases hjson : Json.read t with
  | error fault =>
      obtain ⟨cause, position⟩ := fault
      cases cause <;> simp [LoadFault.isExplained]
  | ok v =>
      cases v with
      | scalar s => simp [LoadFault.isExplained]
      | array items => simp [LoadFault.isExplained]
      | object members =>
          simp only [← ofMembers_isPart_iff]
          cases hmembers : ofMembers members with
          | ok s => simp [hmembers]
          | error fault => simp [hmembers, isExplained_wrongMember_iff]

theorem ofBytes_of_encode? {t : Text} {bytes : List UInt8} (ht : Utf8.encode? t = some bytes)
    (path : Text) : ofBytes path bytes = ofText path (Newline.unify t) := by
  rw [ofBytes, Utf8.decode_eq_ok_iff.mpr ht]

theorem load_of_read {bytes : List UInt8} (hread : files.read path = .ok bytes) :
    load files path = ofBytes path bytes := by
  rw [load, hread]

/-- **Loading ends without an explanation exactly when the file is such.** -/
theorem load_unexplained_iff :
    (∃ fault, load files path = .error fault ∧ fault.isExplained = false) ↔
      BreaksOff files path := by
  constructor
  · rintro ⟨fault, hload, hfault⟩
    cases hread : files.read path with
    | error e =>
        rw [load, hread] at hload
        cases hload
        rw [isExplained_unreadable_iff] at hfault
        subst hfault
        exact .nul (Files.read_embeddedNul_iff.mp hread)
    | ok bytes =>
        by_cases htext : ∃ t, Utf8.encode? t = some bytes
        · obtain ⟨t, ht⟩ := htext
          rw [load_of_read hread, ofBytes_of_encode? ht] at hload
          rcases ofText_unexplained_iff.mp ⟨fault, hload, hfault⟩ with
            ⟨n, position, hjson⟩ | ⟨members, hjson, htyped, hpart⟩
          · exact .longInteger hread ht hjson (Json.hasLongRun_of_read hjson)
          · exact .part hread ht hjson htyped hpart
        · exact .undecodable hread fun t h => htext ⟨t, h⟩
  · intro h
    cases h with
    | nul hnul =>
        rw [load, Files.read_embeddedNul_iff.mpr hnul]
        exact ⟨_, rfl, rfl⟩
    | undecodable hread hno =>
        rename_i bytes
        rw [load_of_read hread, ofBytes]
        cases hdecode : Utf8.decode bytes with
        | ok t => exact absurd (Utf8.decode_eq_ok_iff.mp hdecode) (hno t)
        | error e => exact ⟨_, rfl, rfl⟩
    | longInteger hread ht hjson hrun =>
        rw [load_of_read hread, ofBytes_of_encode? ht]
        exact ofText_unexplained_iff.mpr (Or.inl ⟨_, _, hjson⟩)
    | part hread ht hjson htyped hpart =>
        rw [load_of_read hread, ofBytes_of_encode? ht]
        exact ofText_unexplained_iff.mpr (Or.inr ⟨_, hjson, htyped, hpart⟩)

end Settings

end TerminalMarkup
