/-
Which objects give settings, and which they give.

Members are looked up by their names in one fixed order and each is judged by itself.  So
an object gives settings if every member that means something is of its type
(`exists_ok_iff`), and each setting is then what its member says (`value_of_ok`).  If not,
the fault is that of the first setting, in this order, whose member is of another type
(`firstFault_of_error`).
-/
import Mathlib.Data.List.Basic
import Mathlib.Data.Set.List
import TerminalMarkup.Proofs.Entries
import TerminalMarkup.Proofs.Settings.Loading
import TerminalMarkup.Proofs.Settings.RoundTrip

namespace TerminalMarkup.Settings

/-! ### Settings by their members -/

/-- The types that settings have. -/
inductive Kind where
  | bool
  | text
  | allowList
  deriving DecidableEq, Repr

/-- What a member can set. -/
inductive Key where
  | escapeHtml
  | useClasses
  | boldStyle
  | faintStyle
  | italicStyle
  | underlineStyle
  | allowList
  deriving DecidableEq, Repr

namespace Key

/-- The order in which members are read. -/
def inOrder : List Key :=
  [.escapeHtml, .useClasses, .boldStyle, .faintStyle, .italicStyle, .underlineStyle, .allowList]

def name : Key → Text
  | .escapeHtml => escapeHtmlKey
  | .useClasses => useClassesKey
  | .boldStyle => boldStyleKey
  | .faintStyle => faintStyleKey
  | .italicStyle => italicStyleKey
  | .underlineStyle => underlineStyleKey
  | .allowList => allowListKey

def kind : Key → Kind
  | .escapeHtml | .useClasses => .bool
  | .boldStyle | .faintStyle | .italicStyle | .underlineStyle => .text
  | .allowList => .allowList

/-- The value of a setting, as it is written. -/
def value (s : Settings) : Key → Json
  | .escapeHtml => .scalar (.bool s.escapeHtml)
  | .useClasses => .scalar (.bool s.useClasses)
  | .boldStyle => .scalar (.text s.boldStyle)
  | .faintStyle => .scalar (.text s.faintStyle)
  | .italicStyle => .scalar (.text s.italicStyle)
  | .underlineStyle => .scalar (.text s.underlineStyle)
  | .allowList => .object (verdictMembers s.allowList)

end Key

/-- The value is of the type: a boolean, a text, or for an allow-list any list, or an object that
has booleans only. -/
def Kind.Admits : Kind → Json → Prop
  | .bool, v => ∃ b, v = .scalar (.bool b)
  | .text, v => ∃ t, v = .scalar (.text t)
  | .allowList, v =>
    (∃ items, v = .array items) ∨
      ∃ entries, v = .object entries ∧ ∀ e ∈ entries, ∃ b, e.2 = .scalar (.bool b)

/-- What is asked of a value that is of another type. -/
def Kind.demand : Kind → Json → Text
  | .bool, _ => "must be a boolean".toText
  | .text, _ => "must be a string".toText
  | .allowList, .object _ => "values must be booleans".toText
  | .allowList, _ => "must be an object or a list of schemes".toText

/-- The member of a setting is missing, or of its type. -/
def Key.IsTyped (key : Key) (members : List (Text × Json)) : Prop :=
  ∀ v, Json.member? key.name members = some v → key.kind.Admits v

/-- The object that a list of schemes stands for: what is equal counts once, and so do equal texts,
and every one is allowed. -/
def schemeMembers (items : List Json) : List (Text × Json) :=
  let values := items.filterMap fun
    | .scalar s => some s
    | _ => none
  (((Scalar.distinct values).map Scalar.schemeText).eraseDups).map (·, .scalar (.bool true))

/-- The value that a setting takes from its member. -/
def Key.taken : Key → Json → Json
  | .allowList, .array items => .object (schemeMembers items)
  | _, v => v

/-- The members of an object as it may be read: every name comes once, also in an allow-list, and
if that is a list, nothing in it has parts, nor an integer too many digits. -/
structure IsObject (members : List (Text × Json)) : Prop where
  names : (Entries.keys members).Nodup
  schemes : ∀ entries, Json.member? allowListKey members = some (.object entries) →
    (Entries.keys entries).Nodup
  items : ∀ items, Json.member? allowListKey members = some (.array items) → ∀ item ∈ items,
    ∃ s, item = .scalar s ∧ ∀ n, s = .int n → (Text.ofNat n.natAbs).length ≤ Numeral.digitLimit

variable {members members' : List (Text × Json)}

/-! ### The first fault -/

/-- The fault that a reading ends with. -/
def faultOf {α : Type} : Except Fault α → Option Fault
  | .ok _ => none
  | .error fault => some fault

theorem faultOf_eq_none {α : Type} {r : Except Fault α} : faultOf r = none ↔ ∃ a, r = .ok a := by
  cases r <;> simp [faultOf]

theorem faultOf_eq_some {α : Type} {r : Except Fault α} {fault : Fault} :
    faultOf r = some fault ↔ r = .error fault := by
  cases r <;> simp [faultOf]

/-- Of two readings, the first decides. -/
theorem faultOf_bind {α β : Type} {r : Except Fault α} {next : α → Except Fault β}
    {later : Option Fault} (h : ∀ a, faultOf (next a) = later) :
    faultOf (r >>= next) = (faultOf r).or later := by
  cases r with
  | ok a => exact h a
  | error fault => rfl

theorem faultOf_pure {α : Type} (a : α) : faultOf (pure a) = none := rfl

theorem faultOf_map {α β : Type} (r : Except Fault α) (f : α → β) :
    faultOf (r.map f) = faultOf r := by
  cases r <;> rfl

/-- The fault of a value of a setting, if it has one. -/
def Kind.fault? (name : Text) : Kind → Json → Option Fault
  | .bool, v => if (Json.bool? v).isSome then none else some (.notBoolean name)
  | .text, v => if (Json.text? v).isSome then none else some (.notText name)
  | .allowList, .array items => faultOf (scalars items)
  | .allowList, .object entries => faultOf (verdicts entries)
  | .allowList, .scalar _ => some .notAllowList

/-- The fault of the member of a setting, if there is one and it has one. -/
def Key.fault? (members : List (Text × Json)) (key : Key) : Option Fault :=
  (Json.member? key.name members).bind (key.kind.fault? key.name)

theorem faultOf_ofKind {α : Type} (kind? : Json → Option α) (fault : Fault) (default : α)
    (found : Option Json) : faultOf (ofKind kind? fault default found) =
      found.bind fun v => if (kind? v).isSome then none else some fault := by
  cases found with
  | none => rfl
  | some v => cases hkind : kind? v <;> simp [ofKind, faultOf, hkind]

theorem faultOf_boolMember (key : Text) (default : Bool) :
    faultOf (boolMember members key default) =
      (Json.member? key members).bind (Kind.bool.fault? key) := by
  rw [boolMember_eq, faultOf_ofKind]
  rfl

theorem faultOf_textMember (key default : Text) :
    faultOf (textMember members key default) =
      (Json.member? key members).bind (Kind.text.fault? key) := by
  rw [textMember_eq, faultOf_ofKind]
  rfl

theorem faultOf_allowListMember (default : AllowList) :
    faultOf (allowListMember members default) =
      (Json.member? allowListKey members).bind (Kind.allowList.fault? allowListKey) := by
  unfold allowListMember
  cases Json.member? allowListKey members with
  | none => rfl
  | some v =>
      cases v with
      | scalar s => rfl
      | array items => exact faultOf_map ..
      | object entries => exact faultOf_map ..

/-- **An object has the fault of the first setting that has one.** -/
theorem faultOf_ofMembers :
    faultOf (ofMembers members) = Key.inOrder.findSome? (Key.fault? members) := by
  have hor : ∀ (f : Key → Option Fault) key keys,
      (key :: keys).findSome? f = (f key).or (keys.findSome? f) := by
    intro f key keys
    rw [List.findSome?_cons]
    cases f key <;> rfl
  unfold ofMembers
  refine (faultOf_bind fun _ => faultOf_bind fun _ => faultOf_bind fun _ => faultOf_bind fun _ =>
    faultOf_bind fun _ => faultOf_bind fun _ => faultOf_bind fun _ => faultOf_pure _).trans ?_
  simp only [Key.inOrder, hor, List.findSome?_nil, faultOf_boolMember, faultOf_textMember,
    faultOf_allowListMember]
  rfl

/-! ### Allow-lists -/

theorem scalars_eq_ok_iff {items : List Json} {values : List Scalar} :
    scalars items = .ok values ↔ items = values.map .scalar := by
  induction items generalizing values with
  | nil => cases values <;> simp [scalars]
  | cons item rest ih =>
      cases item with
      | array items => cases values <;> simp [scalars]
      | object entries => cases values <;> simp [scalars]
      | scalar s =>
          cases values with
          | nil => cases hrest : scalars rest <;> simp [scalars, hrest, Except.map]
          | cons value values =>
              rw [List.map_cons, List.cons.injEq, ← ih]
              cases hrest : scalars rest <;> simp [scalars, hrest, Except.map]

theorem verdictMember_injective : Function.Injective verdictMember := by
  intro a b h
  obtain ⟨scheme, allowed⟩ := a
  obtain ⟨scheme', allowed'⟩ := b
  cases h
  rfl

/-- Verdicts have one kind of fault. -/
theorem eq_notVerdicts_of_error {entries : List (Text × Json)} {fault : Fault}
    (h : verdicts entries = .error fault) : fault = .notVerdicts := by
  fun_induction verdicts entries generalizing fault with
  | case1 => cases h
  | case2 scheme b rest ih => exact ih (map_eq_error.mp h)
  | case3 entry rest hno =>
      cases h
      rfl

/-- A list is an image if all its elements are. -/
theorem exists_eq_map_iff {α β : Type} {f : α → β} {l : List β} :
    (∃ sources : List α, l = sources.map f) ↔ ∀ b ∈ l, ∃ a, b = f a := by
  have h := Set.ext_iff.mp (Set.range_list_map f) l
  simpa only [Set.mem_range, Set.mem_ofPred_eq, eq_comm] using h

theorem exists_scalars_iff {items : List Json} :
    (∃ values, scalars items = .ok values) ↔ ∀ item ∈ items, ∃ s, item = .scalar s := by
  simp only [scalars_eq_ok_iff, exists_eq_map_iff]

theorem exists_verdicts_iff {entries : List (Text × Json)} :
    (∃ pairs, verdicts entries = .ok pairs) ↔ ∀ e ∈ entries, ∃ b, e.2 = .scalar (.bool b) := by
  simp only [verdicts_eq_ok_iff, exists_eq_map_iff]
  refine forall₂_congr fun e _ => ⟨?_, ?_⟩
  · intro h
    obtain ⟨pair, rfl⟩ := h
    exact ⟨pair.2, rfl⟩
  · intro h
    obtain ⟨b, hb⟩ := h
    exact ⟨(e.1, b), Prod.ext rfl hb⟩

/-! ### One member -/

/-- A list of schemes has no parts in it. -/
def NoParts (v : Json) : Prop := ∀ items, v = .array items → ∀ item ∈ items, ∃ s, item = .scalar s

theorem Kind.fault?_eq_none_iff {kind : Kind} {name : Text} {v : Json}
    (hitems : kind = .allowList → NoParts v) : kind.fault? name v = none ↔ kind.Admits v := by
  cases kind with
  | bool =>
      rcases v with (_ | b | n | x | t) | items | entries <;>
        simp [fault?, Admits, Json.bool?]
  | text =>
      rcases v with (_ | b | n | x | t) | items | entries <;>
        simp [fault?, Admits, Json.text?]
  | allowList =>
      cases v with
      | scalar s => simp [fault?, Admits]
      | array items =>
          have hscalars := exists_scalars_iff.mpr (hitems rfl items rfl)
          refine iff_of_true (faultOf_eq_none.mpr hscalars) (Or.inl ⟨items, rfl⟩)
      | object entries =>
          have hnot : ¬∃ items, Json.object entries = .array items := by
            intro h
            obtain ⟨items, h⟩ := h
            cases h
          rw [Admits, or_iff_right hnot]
          simp only [fault?, faultOf_eq_none, exists_verdicts_iff, Json.object.injEq,
            exists_eq_left']

theorem message_notBoolean (name : Text) : (Fault.notBoolean name).message =
    "'".toText ++ name ++ "' ".toText ++ "must be a boolean".toText := by
  have hwords : "' must be a boolean".toText = "' ".toText ++ "must be a boolean".toText := rfl
  show "'".toText ++ name ++ "' must be a boolean".toText = _
  rw [hwords, ← List.append_assoc]

theorem message_notText (name : Text) : (Fault.notText name).message =
    "'".toText ++ name ++ "' ".toText ++ "must be a string".toText := by
  have hwords : "' must be a string".toText = "' ".toText ++ "must be a string".toText := rfl
  show "'".toText ++ name ++ "' must be a string".toText = _
  rw [hwords, ← List.append_assoc]

/-- The fault of a value names its setting and says what is asked of it. -/
theorem Key.message_of_fault? {key : Key} {v : Json} {fault : Fault}
    (hitems : key.kind = .allowList → NoParts v) (h : key.kind.fault? key.name v = some fault) :
    fault.message = "'".toText ++ key.name ++ "' ".toText ++ key.kind.demand v := by
  have hbool : ∀ name, Kind.bool.fault? name v = some fault →
      fault.message = "'".toText ++ name ++ "' ".toText ++ Kind.bool.demand v := by
    intro name h
    obtain ⟨-, hfault⟩ := Option.ite_none_left_eq_some.mp h
    rw [← Option.some.inj hfault]
    exact message_notBoolean name
  have htext : ∀ name, Kind.text.fault? name v = some fault →
      fault.message = "'".toText ++ name ++ "' ".toText ++ Kind.text.demand v := by
    intro name h
    obtain ⟨-, hfault⟩ := Option.ite_none_left_eq_some.mp h
    rw [← Option.some.inj hfault]
    exact message_notText name
  cases key with
  | escapeHtml => exact hbool _ h
  | useClasses => exact hbool _ h
  | boldStyle => exact htext _ h
  | faintStyle => exact htext _ h
  | italicStyle => exact htext _ h
  | underlineStyle => exact htext _ h
  | allowList =>
      cases v with
      | scalar s =>
          cases h
          rfl
      | array items =>
          obtain ⟨values, hvalues⟩ := exists_scalars_iff.mpr (hitems rfl items rfl)
          have herror : scalars items = .error fault := faultOf_eq_some.mp h
          rw [hvalues] at herror
          cases herror
      | object entries =>
          obtain rfl := eq_notVerdicts_of_error (faultOf_eq_some.mp h)
          rfl

theorem IsObject.noParts (h : IsObject members) {key : Key} {v : Json}
    (hfound : Json.member? key.name members = some v) : key.kind = .allowList → NoParts v := by
  intro hkind items hv item hitem
  subst hv
  cases key with
  | allowList =>
      obtain ⟨s, hs, -⟩ := h.items items hfound item hitem
      exact ⟨s, hs⟩
  | _ => cases hkind

theorem Key.fault?_eq_none_iff (h : IsObject members) {key : Key} :
    key.fault? members = none ↔ key.IsTyped members := by
  rw [Key.fault?, Option.bind_eq_none_iff]
  exact forall₂_congr fun v hfound => Kind.fault?_eq_none_iff (h.noParts hfound)

/-- A value is the first, in the order of reading, that is not of its type. -/
structure Key.IsFirstFault (members : List (Text × Json)) (key : Key) (v : Json) : Prop where
  found : Json.member? key.name members = some v
  fails : ¬key.kind.Admits v
  first : ∃ before after, Key.inOrder = before ++ key :: after ∧ ∀ k ∈ before, k.IsTyped members

theorem exists_ok_iff (h : IsObject members) :
    (∃ s, ofMembers members = .ok s) ↔ ∀ key : Key, key.IsTyped members := by
  have hall : ∀ key, key ∈ Key.inOrder := by
    intro key
    cases key <;> decide
  rw [← faultOf_eq_none, faultOf_ofMembers, List.findSome?_eq_none_iff]
  constructor
  · intro hnone key
    exact (Key.fault?_eq_none_iff h).mp (hnone key (hall key))
  · intro htyped key _
    exact (Key.fault?_eq_none_iff h).mpr (htyped key)

theorem firstFault_of_error (h : IsObject members) {fault : Fault}
    (herror : ofMembers members = .error fault) : ∃ key v, Key.IsFirstFault members key v ∧
      fault.message = "'".toText ++ key.name ++ "' ".toText ++ key.kind.demand v := by
  rw [← faultOf_eq_some, faultOf_ofMembers, List.findSome?_eq_some_iff] at herror
  obtain ⟨before, key, after, horder, hfault, hbefore⟩ := herror
  obtain ⟨v, hfound, hv⟩ := Option.bind_eq_some_iff.mp hfault
  have hitems := h.noParts hfound
  have hfails : ¬key.kind.Admits v := by
    rw [← Kind.fault?_eq_none_iff hitems, hv]
    exact Option.some_ne_none fault
  have hfirst : ∀ k ∈ before, k.IsTyped members := fun k hk =>
    (Key.fault?_eq_none_iff h).mp (hbefore k hk)
  exact ⟨key, v, ⟨hfound, hfails, before, after, horder, hfirst⟩, Key.message_of_fault? hitems hv⟩

/-! ### The settings that are given -/

theorem bind_eq_ok_iff {α β : Type} {r : Except Fault α} {next : α → Except Fault β} {b : β} :
    (r >>= next) = .ok b ↔ ∃ a, r = .ok a ∧ next a = .ok b := by
  cases r <;> simp [bind, Except.bind]

/-- Settings are given by an object if each is given by its member. -/
structure Read (members : List (Text × Json)) (s : Settings) : Prop where
  escapeHtml : boolMember members escapeHtmlKey ({} : Settings).escapeHtml = .ok s.escapeHtml
  useClasses : boolMember members useClassesKey ({} : Settings).useClasses = .ok s.useClasses
  boldStyle : textMember members boldStyleKey ({} : Settings).boldStyle = .ok s.boldStyle
  faintStyle : textMember members faintStyleKey ({} : Settings).faintStyle = .ok s.faintStyle
  italicStyle : textMember members italicStyleKey ({} : Settings).italicStyle = .ok s.italicStyle
  underlineStyle :
    textMember members underlineStyleKey ({} : Settings).underlineStyle = .ok s.underlineStyle
  allowList : allowListMember members ({} : Settings).allowList = .ok s.allowList

variable {s : Settings}

theorem ofMembers_eq_ok_iff : ofMembers members = .ok s ↔ Read members s := by
  unfold ofMembers
  simp only [bind_eq_ok_iff, pure, Except.pure, Except.ok.injEq]
  constructor
  · intro h
    obtain ⟨escapeHtml, h1, useClasses, h2, bold, h3, faint, h4, italic, h5, underline, h6, list,
      h7, rfl⟩ := h
    exact ⟨h1, h2, h3, h4, h5, h6, h7⟩
  · intro h
    exact ⟨_, h.escapeHtml, _, h.useClasses, _, h.boldStyle, _, h.faintStyle, _, h.italicStyle, _,
      h.underlineStyle, _, h.allowList, rfl⟩

/-- What is read of a member of one kind is the member, or the default. -/
theorem value_of_ofKind {α : Type} {kind? : Json → Option α} {fault : Fault} {default a : α}
    {found : Option Json} (write : α → Json) (hkind : ∀ v a, kind? v = some a → write a = v)
    (h : ofKind kind? fault default found = .ok a) :
    write a = found.getD (write default) := by
  cases found with
  | none =>
      cases h
      rfl
  | some v =>
      rw [ofKind] at h
      split at h
      · rename_i b hb
        cases h
        exact hkind v a hb
      · cases h

theorem value_of_boolMember {key : Text} {default b : Bool}
    (h : boolMember members key default = .ok b) :
    .scalar (.bool b) = (Json.member? key members).getD (.scalar (.bool default)) := by
  have hkind : ∀ v b, Json.bool? v = some b → Json.scalar (.bool b) = v := by
    intro v b hb
    unfold Json.bool? at hb
    split at hb
    · rw [Option.some.inj hb]
    · cases hb
  rw [boolMember_eq] at h
  exact value_of_ofKind (fun b => .scalar (.bool b)) hkind h

theorem value_of_textMember {key default t : Text}
    (h : textMember members key default = .ok t) :
    .scalar (.text t) = (Json.member? key members).getD (.scalar (.text default)) := by
  have hkind : ∀ v t, Json.text? v = some t → Json.scalar (.text t) = v := by
    intro v t ht
    unfold Json.text? at ht
    split at ht
    · rw [Option.some.inj ht]
    · cases ht
  rw [textMember_eq] at h
  exact value_of_ofKind (fun t => .scalar (.text t)) hkind h

theorem entries_ofScalars (values : List Scalar) : (AllowList.ofScalars values).entries =
    ((Scalar.distinct values).map Scalar.schemeText).eraseDups.map (·, true) :=
  Entries.ofPairs_same _ true

theorem verdictMembers_ofScalars (values : List Scalar) :
    verdictMembers (.ofScalars values) = schemeMembers (values.map .scalar) := by
  have hvalues : (values.map Json.scalar).filterMap (fun
      | .scalar s => some s
      | _ => none) = values := by
    rw [List.filterMap_map]
    exact List.filterMap_some
  rw [schemeMembers, hvalues, verdictMembers, entries_ofScalars, List.map_map]
  rfl

/-- An allow-list has the verdicts of an object as its entries. -/
theorem entries_ofPairs {entries : List (Text × Json)} {pairs : List (Text × Bool)}
    (h : (Entries.keys entries).Nodup) (hok : verdicts entries = .ok pairs) :
    (AllowList.ofPairs pairs).entries = pairs := by
  have hkeys : Entries.keys (pairs.map verdictMember) = Entries.keys pairs := by
    simp [Entries.keys, verdictMember, Function.comp_def]
  rw [verdicts_eq_ok_iff.mp hok, hkeys] at h
  exact Entries.ofPairs_of_nodup h

theorem value_of_allowListMember (hobject : IsObject members) {default list : AllowList}
    (h : allowListMember members default = .ok list) :
    .object (verdictMembers list) =
      ((Json.member? allowListKey members).map (Key.taken .allowList)).getD
        (.object (verdictMembers default)) := by
  unfold allowListMember at h
  split at h
  · rename_i hfound
    cases h
    rw [hfound]
    rfl
  · rename_i items hfound
    cases hscalars : scalars items with
    | error fault =>
        rw [hscalars] at h
        cases h
    | ok values =>
        rw [hscalars] at h
        cases h
        rw [hfound, verdictMembers_ofScalars, ← scalars_eq_ok_iff.mp hscalars]
        rfl
  · rename_i entries hfound
    cases hverdicts : verdicts entries with
    | error fault =>
        rw [hverdicts] at h
        cases h
    | ok pairs =>
        rw [hverdicts] at h
        cases h
        have hentries := entries_ofPairs (hobject.schemes entries hfound) hverdicts
        have hmembers : verdictMembers (.ofPairs pairs) = entries := by
          rw [verdictMembers, hentries]
          exact (verdicts_eq_ok_iff.mp hverdicts).symm
        rw [hfound, hmembers]
        rfl
  · cases h

/-- **Every setting is what its member says, and its default if it has none.** -/
theorem value_of_ok (hobject : IsObject members) (h : ofMembers members = .ok s) (key : Key) :
    key.value s = ((Json.member? key.name members).map key.taken).getD (key.value {}) := by
  have hread := ofMembers_eq_ok_iff.mp h
  have hself : ∀ key : Key, key ≠ .allowList → ∀ found : Option Json,
      found.map key.taken = found := by
    intro key hkey found
    cases found with
    | none => rfl
    | some v =>
        cases key with
        | allowList => exact absurd rfl hkey
        | _ => rfl
  cases key with
  | escapeHtml =>
      rw [hself _ (by decide)]
      exact value_of_boolMember hread.escapeHtml
  | useClasses =>
      rw [hself _ (by decide)]
      exact value_of_boolMember hread.useClasses
  | boldStyle =>
      rw [hself _ (by decide)]
      exact value_of_textMember hread.boldStyle
  | faintStyle =>
      rw [hself _ (by decide)]
      exact value_of_textMember hread.faintStyle
  | italicStyle =>
      rw [hself _ (by decide)]
      exact value_of_textMember hread.italicStyle
  | underlineStyle =>
      rw [hself _ (by decide)]
      exact value_of_textMember hread.underlineStyle
  | allowList => exact value_of_allowListMember hobject hread.allowList

end TerminalMarkup.Settings
