/-
What a list of schemes comes to.

The elements of a list become the keys of an allow-list, and are told apart twice over on
the way: first as values and then as texts.  The two do not agree.  The boolean true and
the number 1 are equal and have different texts; the number 1 and the text "1" have the
same text and are not equal.

Both go through the list from the front and keep what comes first, so it is enough to say
what one more element does at the end (`schemeKeys_concat_of_recurs` and
`schemeKeys_concat_of_not_recurs`): its text becomes a key, unless the element equals one
before it, or the text is a key already.  All else follows by induction, element by element.
-/
import Mathlib.Algebra.Field.Rat
import Mathlib.Algebra.Order.Ring.Rat
import Mathlib.Data.List.Induction
import Mathlib.Data.Nat.Find
import TerminalMarkup.Proofs.Converter.Policy
import TerminalMarkup.Proofs.Settings.Reordering

namespace TerminalMarkup

/-! ### Equal values -/

/-- The value as a rational number. -/
def Dyadic.toRat (d : Dyadic) : ℚ := d.numerator / 2 ^ d.places

theorem Dyadic.sameAs_iff {a b : Dyadic} : a.sameAs b = true ↔ a.toRat = b.toRat := by
  have hpow : ∀ n : Nat, (2 : ℚ) ^ n ≠ 0 := fun n => pow_ne_zero n two_ne_zero
  rw [sameAs, beq_iff_eq, toRat, toRat, div_eq_div_iff (hpow _) (hpow _)]
  norm_cast

namespace Scalar

/-- What a value is worth: the number that it is, where booleans are 0 and 1, or else itself. -/
def worth : Scalar → ℚ ⊕ Scalar
  | .bool b => .inl (if b then 1 else 0)
  | .int n => .inl n
  | .float (.finite negative significand exponent) =>
    .inl ((if negative then -1 else 1) * significand * 2 ^ exponent)
  | s => .inr s

/-- Two values are equal: they are the same number, or one and the same. -/
def Equals (a b : Scalar) : Prop := a.worth = b.worth

theorem toRat_finite (n exponent : Int) :
    Dyadic.toRat ⟨n * 2 ^ exponent.toNat, (-exponent).toNat⟩ = n * 2 ^ exponent := by
  cases exponent with
  | ofNat k => simp [Dyadic.toRat]
  | negSucc k => simp [Dyadic.toRat, zpow_negSucc, div_eq_mul_inv]

theorem worth_eq (s : Scalar) : s.worth = (s.number?.map Dyadic.toRat).elim (.inr s) .inl := by
  match s with
  | .null => rfl
  | .bool b => cases b <;> simp [worth, number?, Dyadic.ofInt, Dyadic.toRat]
  | .int n => simp [worth, number?, Dyadic.ofInt, Dyadic.toRat]
  | .float .nan => rfl
  | .float (.infinite _) => rfl
  | .float (.finite negative significand exponent) =>
    have hfinite := toRat_finite (if negative then -significand else significand) exponent
    cases negative <;> simpa [worth, number?, Binary64.value?] using hfinite.symm
  | .text t => rfl

theorem sameAs_iff {a b : Scalar} : a.sameAs b = true ↔ a.Equals b := by
  rw [Equals, worth_eq, worth_eq, sameAs]
  cases ha : a.number? <;> cases hb : b.number? <;> simp [Dyadic.sameAs_iff]

variable {values : List Scalar} {v : Scalar}

theorem equals_text_iff {s t : Text} : (Scalar.text s).Equals (.text t) ↔ s = t := by
  simp [Equals, worth]

/-! ### Values without equal ones -/

theorem distinctOnto_append (kept values more : List Scalar) :
    distinctOnto kept (values ++ more) = distinctOnto (distinctOnto kept values) more := by
  induction values generalizing kept with
  | nil => rfl
  | cons s rest ih => exact ih _

theorem any_sameAs_iff : values.any (·.sameAs v) = true ↔ v.worth ∈ values.map worth := by
  simp only [List.any_eq_true, sameAs_iff, Equals, List.mem_map]

theorem exists_equals_iff : (∃ u ∈ values, u.Equals v) ↔ v.worth ∈ values.map worth := by
  simp only [Equals, List.mem_map]

theorem distinct_concat_of_any (h : (distinct values).any (·.sameAs v) = true) :
    distinct (values ++ [v]) = distinct values := by
  rw [distinct, distinctOnto_append]
  exact if_pos h

theorem distinct_concat_of_not_any (h : ¬(distinct values).any (·.sameAs v) = true) :
    distinct (values ++ [v]) = distinct values ++ [v] := by
  rw [distinct, distinctOnto_append]
  exact if_neg h

/-- Of equal values one is kept. -/
theorem mem_worth_distinct (values : List Scalar) (q : ℚ ⊕ Scalar) :
    q ∈ (distinct values).map worth ↔ q ∈ values.map worth := by
  induction values using List.reverseRecOn with
  | nil => rfl
  | append_singleton values v ih =>
      by_cases h : (distinct values).any (·.sameAs v) = true
      · have hworth := any_sameAs_iff.mp h
        rw [distinct_concat_of_any h, ih, List.map_append, List.mem_append, List.map_singleton,
          List.mem_singleton, iff_self_or]
        rintro rfl
        exact ih.mp hworth
      · rw [distinct_concat_of_not_any h, List.map_append, List.map_append, List.mem_append,
          List.mem_append, ih]

theorem distinct_concat_of_equals (h : ∃ u ∈ values, u.Equals v) :
    distinct (values ++ [v]) = distinct values :=
  distinct_concat_of_any (any_sameAs_iff.mpr
    ((mem_worth_distinct values _).mpr (exists_equals_iff.mp h)))

theorem distinct_concat_of_not_equals (h : ¬∃ u ∈ values, u.Equals v) :
    distinct (values ++ [v]) = distinct values ++ [v] :=
  distinct_concat_of_not_any fun hany => h (exists_equals_iff.mpr
    ((mem_worth_distinct values _).mp (any_sameAs_iff.mp hany)))

/-! ### The elements that name keys -/

/-- The element at a place names a key: it has its text, and equals none before it. -/
def NamesAt (values : List Scalar) (key : Text) (place : Nat) : Prop :=
  ∃ v, values[place]? = some v ∧ v.schemeText = key ∧ ¬∃ u ∈ values.take place, u.Equals v

/-- The place of the first element that names a key. -/
structure FirstNamesAt (values : List Scalar) (key : Text) (place : Nat) : Prop where
  names : NamesAt values key place
  first : ∀ sooner < place, ¬NamesAt values key sooner

variable {key : Text} {place : Nat}

theorem NamesAt.lt_length (h : NamesAt values key place) : place < values.length := by
  obtain ⟨v, hfound, -⟩ := h
  exact (List.getElem?_eq_some_iff.mp hfound).1

/-- The last of the elements makes no difference to those before it. -/
theorem namesAt_concat_iff : NamesAt (values ++ [v]) key place ↔
    NamesAt values key place ∨
      (place = values.length ∧ v.schemeText = key ∧ ¬∃ u ∈ values, u.Equals v) := by
  rcases Nat.lt_trichotomy place values.length with hlt | rfl | hgt
  · have htake : (values ++ [v]).take place = values.take place :=
      List.take_append_of_le_length hlt.le
    rw [NamesAt, NamesAt, htake, List.getElem?_append_left hlt, or_iff_left]
    exact fun hlast => hlt.ne hlast.1
  · have htake : (values ++ [v]).take values.length = values := List.take_left
    have hnot : ¬NamesAt values key values.length := fun h => h.lt_length.false
    rw [or_iff_right hnot, NamesAt, htake]
    simp
  · refine iff_of_false (fun h => ?_) ?_
    · have hlength := h.lt_length
      rw [List.length_append, List.length_singleton] at hlength
      omega
    · rintro (h | h)
      · exact hgt.not_gt h.lt_length
      · exact hgt.ne' h.1

theorem exists_firstNamesAt (h : ∃ place, NamesAt values key place) :
    ∃ place, FirstNamesAt values key place := by
  classical
  exact ⟨Nat.find h, Nat.find_spec h, fun _ => Nat.find_min h⟩

/-- The first place of a key stays its first place, when another element comes. -/
theorem FirstNamesAt.of_concat (hnamed : ∃ place, NamesAt values key place)
    (h : FirstNamesAt (values ++ [v]) key place) : FirstNamesAt values key place := by
  obtain ⟨known, hknown⟩ := hnamed
  have hle : place ≤ known := by
    by_contra hlt
    exact h.first known (not_le.mp hlt) (namesAt_concat_iff.mpr (Or.inl hknown))
  refine ⟨?_, fun sooner hsooner hnames => h.first sooner hsooner ?_⟩
  · refine (namesAt_concat_iff.mp h.names).resolve_right fun hlast => ?_
    exact (hle.trans_lt hknown.lt_length).ne hlast.1
  · exact namesAt_concat_iff.mpr (Or.inl hnames)

/-! ### Keys -/

/-- The keys that a list of schemes comes to. -/
def schemeKeys (values : List Scalar) : List Text :=
  Entries.keys (AllowList.ofScalars values).entries

/-- An element brings no key: it equals one before it, or its text is a key already. -/
def Recurs (values : List Scalar) (v : Scalar) : Prop :=
  (∃ u ∈ values, u.Equals v) ∨ v.schemeText ∈ schemeKeys values

theorem schemeKeys_eq (values : List Scalar) :
    schemeKeys values = ((distinct values).map schemeText).eraseDups := by
  rw [schemeKeys, Settings.entries_ofScalars, Entries.keys, List.map_map]
  exact List.map_id _

/-- There is nothing in the list but its keys. -/
theorem entries_eq (values : List Scalar) :
    (AllowList.ofScalars values).entries = (schemeKeys values).map (·, true) := by
  rw [Settings.entries_ofScalars, schemeKeys_eq]

theorem ofScalars_eq_of_schemeKeys_eq {values' : List Scalar}
    (h : schemeKeys values = schemeKeys values') :
    AllowList.ofScalars values = .ofScalars values' := by
  rw [← Settings.ofPairs_entries (.ofScalars values), entries_eq, h, ← entries_eq,
    Settings.ofPairs_entries]

theorem schemeKeys_concat_of_equals (h : ∃ u ∈ values, u.Equals v) :
    schemeKeys (values ++ [v]) = schemeKeys values := by
  rw [schemeKeys_eq, schemeKeys_eq, distinct_concat_of_equals h]

theorem schemeKeys_concat_of_not_equals (h : ¬∃ u ∈ values, u.Equals v) :
    schemeKeys (values ++ [v]) =
      if v.schemeText ∈ schemeKeys values then schemeKeys values
      else schemeKeys values ++ [v.schemeText] := by
  rw [schemeKeys_eq, schemeKeys_eq, distinct_concat_of_not_equals h, List.map_append,
    List.map_singleton, Entries.eraseDups_concat]
  simp only [List.mem_eraseDups]

theorem schemeKeys_concat_of_recurs (h : Recurs values v) :
    schemeKeys (values ++ [v]) = schemeKeys values := by
  by_cases hequals : ∃ u ∈ values, u.Equals v
  · exact schemeKeys_concat_of_equals hequals
  · rw [schemeKeys_concat_of_not_equals hequals, if_pos (h.resolve_left hequals)]

theorem schemeKeys_concat_of_not_recurs (h : ¬Recurs values v) :
    schemeKeys (values ++ [v]) = schemeKeys values ++ [v.schemeText] := by
  obtain ⟨hequals, htext⟩ := not_or.mp h
  rw [schemeKeys_concat_of_not_equals hequals, if_neg htext]

theorem mem_schemeKeys_concat_iff : key ∈ schemeKeys (values ++ [v]) ↔
    key ∈ schemeKeys values ∨ (v.schemeText = key ∧ ¬∃ u ∈ values, u.Equals v) := by
  by_cases hequals : ∃ u ∈ values, u.Equals v
  · rw [schemeKeys_concat_of_equals hequals, or_iff_left]
    exact fun h => h.2 hequals
  · rw [schemeKeys_concat_of_not_equals hequals, and_iff_left hequals]
    split
    · rename_i hmem
      rw [iff_self_or]
      exact fun h => h ▸ hmem
    · rw [List.mem_append, List.mem_singleton, eq_comm]

/-- **The keys are the texts that elements name.** -/
theorem mem_schemeKeys_iff : key ∈ schemeKeys values ↔ ∃ place, NamesAt values key place := by
  induction values using List.reverseRecOn with
  | nil => simp [schemeKeys_eq, distinct, distinctOnto, NamesAt]
  | append_singleton values v ih =>
      rw [mem_schemeKeys_concat_iff, ih]
      simp only [namesAt_concat_iff, exists_or, exists_eq_left]

/-- **Keys stand in the order of the elements that name them first.** -/
theorem pairwise_schemeKeys (values : List Scalar) : (schemeKeys values).Pairwise fun key later =>
    ∀ i j, FirstNamesAt values key i → FirstNamesAt values later j → i < j := by
  induction values using List.reverseRecOn with
  | nil => simp [schemeKeys_eq, distinct, distinctOnto]
  | append_singleton values v ih =>
      have hknown : (schemeKeys values).Pairwise fun key later => ∀ i j,
          FirstNamesAt (values ++ [v]) key i → FirstNamesAt (values ++ [v]) later j → i < j := by
        refine ih.imp_of_mem fun hkey hlater hsooner i j hi hj => hsooner i j ?_ ?_
        · exact hi.of_concat (mem_schemeKeys_iff.mp hkey)
        · exact hj.of_concat (mem_schemeKeys_iff.mp hlater)
      by_cases hrecurs : Recurs values v
      · rw [schemeKeys_concat_of_recurs hrecurs]
        exact hknown
      · rw [schemeKeys_concat_of_not_recurs hrecurs]
        refine List.pairwise_append.mpr ⟨hknown, List.pairwise_singleton .., ?_⟩
        intro key hkey later hlater i j hi hj
        obtain rfl := List.mem_singleton.mp hlater
        have hlt := (hi.of_concat (mem_schemeKeys_iff.mp hkey)).names.lt_length
        -- Nothing before the last element names its text, or it would be a key.
        rcases namesAt_concat_iff.mp hj.names with hnames | hlast
        · exact absurd (Or.inr (mem_schemeKeys_iff.mpr ⟨j, hnames⟩)) hrecurs
        · exact hlast.1.symm ▸ hlt

/-- If what is equal has the same text, only texts count. -/
theorem schemeKeys_of_alike
    (h : ∀ u ∈ values, ∀ v ∈ values, u.Equals v → u.schemeText = v.schemeText) :
    schemeKeys values = (values.map schemeText).eraseDups := by
  induction values using List.reverseRecOn with
  | nil => rfl
  | append_singleton values v ih =>
      have hkeys := ih fun u hu w hw =>
        h u (List.mem_append_left _ hu) w (List.mem_append_left _ hw)
      have htext : (∃ u ∈ values, u.Equals v) → v.schemeText ∈ values.map schemeText := by
        rintro ⟨u, hu, hequals⟩
        rw [← h u (List.mem_append_left _ hu) v List.mem_concat_self hequals]
        exact List.mem_map_of_mem hu
      have hrecurs : Recurs values v ↔ v.schemeText ∈ values.map schemeText := by
        rw [Recurs, hkeys, List.mem_eraseDups, or_iff_right_of_imp htext]
      rw [List.map_append, List.map_singleton, Entries.eraseDups_concat, ← hkeys]
      split
      · rename_i hmem
        exact schemeKeys_concat_of_recurs (hrecurs.mpr hmem)
      · rename_i hmem
        exact schemeKeys_concat_of_not_recurs (mt hrecurs.mp hmem)

theorem schemeKeys_texts (schemes : List Text) :
    schemeKeys (schemes.map .text) = schemes.eraseDups := by
  have htexts : (schemes.map Scalar.text).map schemeText = schemes := by
    rw [List.map_map]
    exact List.map_id _
  rw [schemeKeys_of_alike, htexts]
  intro u hu v hv hequals
  obtain ⟨s, -, rfl⟩ := List.mem_map.mp hu
  obtain ⟨t, -, rfl⟩ := List.mem_map.mp hv
  exact equals_text_iff.mp hequals

end Scalar

/-! ### Links -/

theorem Html.renderHyperlink_ne_nil_iff {settings : Settings} {url label : Text} :
    renderHyperlink settings url label ≠ [] ↔ isAllowed settings url = true := by
  unfold renderHyperlink
  split <;> simp_all [String.toText, Text.ofChars]

namespace Settings

open Scalar

variable {values : List Scalar} {v v' : Json} {list : AllowList}

/-! ### Reading a list -/

/-- A value stands for a list: it is read as this list wherever it is the member for one. -/
def Denotes (v : Json) (list : AllowList) : Prop :=
  ∀ members default, Json.member? allowListKey members = some v →
    allowListMember members default = .ok list

theorem denotes_array (values : List Scalar) :
    Denotes (.array (values.map .scalar)) (.ofScalars values) := by
  intro members default hfound
  have hscalars : scalars (values.map .scalar) = .ok values := scalars_eq_ok_iff.mpr rfl
  rw [allowListMember, hfound]
  simp only [hscalars]
  rfl

theorem denotes_object (list : AllowList) : Denotes (.object (verdictMembers list)) list := by
  intro members default hfound
  refine (allowListMember_of_object hfound).mpr ⟨list.entries, verdicts_verdictMembers list, ?_⟩
  exact ofPairs_entries list

theorem member?_put (v : Json) (members : List (Text × Json)) :
    Json.member? allowListKey (Entries.put allowListKey v members) = some v := by
  rw [Json.member?, Entries.get?_put, if_pos rfl]

theorem member?_put_other {key : Key} (h : key ≠ .allowList) (v : Json)
    (members : List (Text × Json)) :
    Json.member? key.name (Entries.put allowListKey v members) = Json.member? key.name members := by
  have hname : allowListKey ≠ key.name := by
    cases key with
    | allowList => exact absurd rfl h
    | _ => decide
  rw [Json.member?, Entries.get?_put, if_neg hname, Json.member?]

/-- Two values that stand for the same list can be put in each other's place. -/
theorem Denotes.ofMembers_eq (h : Denotes v list) (h' : Denotes v' list)
    (members : List (Text × Json)) :
    ofMembers (Entries.put allowListKey v members)
      = ofMembers (Entries.put allowListKey v' members) := by
  refine ofMembers_congr (fun key hkey => ?_) fun default => ?_
  · rw [member?_put_other hkey, member?_put_other hkey]
  · rw [h _ _ (member?_put v members), h' _ _ (member?_put v' members)]

/-- A value that stands for a list can be put into any object that gives settings. -/
theorem Denotes.ofMembers_put (h : Denotes v list) {members : List (Text × Json)} {s : Settings}
    (hread : ofMembers members = .ok s) :
    ofMembers (Entries.put allowListKey v members) = .ok { s with allowList := list } := by
  obtain ⟨h1, h2, h3, h4, h5, h6, -⟩ := ofMembers_eq_ok_iff.mp hread
  have hother := fun (key : Key) (hkey : key ≠ .allowList) => member?_put_other hkey v members
  refine ofMembers_eq_ok_iff.mpr ⟨?_, ?_, ?_, ?_, ?_, ?_, h _ _ (member?_put v members)⟩
  · exact (boolMember_congr (hother .escapeHtml (by decide)) _).trans h1
  · exact (boolMember_congr (hother .useClasses (by decide)) _).trans h2
  · exact (textMember_congr (hother .boldStyle (by decide)) _).trans h3
  · exact (textMember_congr (hother .faintStyle (by decide)) _).trans h4
  · exact (textMember_congr (hother .italicStyle (by decide)) _).trans h5
  · exact (textMember_congr (hother .underlineStyle (by decide)) _).trans h6

/-- The object that allows each of some schemes stands for the same as the list of them. -/
theorem denotes_allowed (schemes : List Text) :
    Denotes (.object (Entries.ofPairs (schemes.map (·, .scalar (.bool true)))))
      (.ofScalars (schemes.map .text)) := by
  have hmembers : verdictMembers (.ofScalars (schemes.map .text))
      = Entries.ofPairs (schemes.map (·, .scalar (.bool true))) := by
    rw [verdictMembers, entries_eq, schemeKeys_texts, Entries.ofPairs_same, List.map_map]
    rfl
  rw [← hmembers]
  exact denotes_object _

theorem renderHyperlink_ne_nil_iff_mem {settings : Settings} {schemes : List Text}
    (h : settings.allowList = .ofScalars (schemes.map .text)) {url label : Text} :
    Html.renderHyperlink settings url label ≠ [] ↔
      ∃ scheme ∈ schemes, ∃ rest, url = scheme ++ .scalar ':' :: rest ∧
        (':' : CodePoint) ∉ scheme := by
  have hentry : ∀ scheme, (scheme, true) ∈ settings.allowList.entries ↔ scheme ∈ schemes := by
    intro scheme
    rw [h, entries_eq, schemeKeys_texts]
    simp
  rw [Html.renderHyperlink_ne_nil_iff, Html.isAllowed_iff, AllowList.Permits]
  simp only [hentry]
  constructor
  · rintro ⟨scheme, rest, hurl, hcolon, hmem⟩
    exact ⟨scheme, hmem, rest, hurl, hcolon⟩
  · rintro ⟨scheme, hmem, rest, hurl, hcolon⟩
    exact ⟨scheme, rest, hurl, hcolon, hmem⟩

/--
**A list of schemes collapses to the keys that its elements name first.**

Put into any object that gives settings, a list of values without parts gives the same settings
with the list of its keys, all of them allowed.  The keys are distinct, each is the text of an
element, and they stand in the order of the elements that name them first.  An element that equals
one before it is not counted, even if its text is another; where there is no such element, the keys
are the texts of the elements, each once, where it comes first.

One more element makes no difference if it equals one before it, or if its text is a key; otherwise
its text is a key more, at the end.  A list of texts is read as the object that allows each of them,
whatever else there is to be read, and the links that come out are those whose scheme is in the
list.
-/
theorem schemes_collapse (values : List Scalar) :
    let list := AllowList.ofScalars values
    let keys := schemeKeys values
    (∀ members s, ofMembers members = .ok s →
      ofMembers (Entries.put allowListKey (.array (values.map .scalar)) members)
        = .ok { s with allowList := list }) ∧
    list.entries = keys.map (·, true) ∧ keys.Nodup ∧
    (∀ key ∈ keys, ∃ v ∈ values, v.schemeText = key) ∧
    (∀ key, key ∈ keys ↔ ∃ place, FirstNamesAt values key place) ∧
    (keys.Pairwise fun key later =>
      ∀ i j, FirstNamesAt values key i → FirstNamesAt values later j → i < j) ∧
    ((∀ u ∈ values, ∀ v ∈ values, u.Equals v → u.schemeText = v.schemeText) →
      keys = (values.map schemeText).eraseDups) ∧
    (∀ v, ((∃ u ∈ values, u.Equals v) ∨ v.schemeText ∈ keys →
        AllowList.ofScalars (values ++ [v]) = list) ∧
      (¬((∃ u ∈ values, u.Equals v) ∨ v.schemeText ∈ keys) →
        (AllowList.ofScalars (values ++ [v])).entries = list.entries ++ [(v.schemeText, true)])) ∧
    ∀ schemes : List Text, values = schemes.map .text →
      (∀ members, ofMembers (Entries.put allowListKey (.array (values.map .scalar)) members)
        = ofMembers (Entries.put allowListKey
            (.object (Entries.ofPairs (schemes.map (·, .scalar (.bool true))))) members)) ∧
      ∀ settings : Settings, settings.allowList = list → ∀ url label,
        Html.renderHyperlink settings url label ≠ [] ↔
          ∃ scheme ∈ schemes, ∃ rest, url = scheme ++ .scalar ':' :: rest ∧
            (':' : CodePoint) ∉ scheme := by
  intro list keys
  refine ⟨fun members s hread => (denotes_array values).ofMembers_put hread, entries_eq values,
    list.distinct, ?_, ?_, pairwise_schemeKeys values, schemeKeys_of_alike, ?_, ?_⟩
  · intro key hkey
    obtain ⟨place, v, hfound, htext, -⟩ := mem_schemeKeys_iff.mp hkey
    exact ⟨v, List.mem_of_getElem? hfound, htext⟩
  · intro key
    rw [mem_schemeKeys_iff]
    exact ⟨exists_firstNamesAt, fun ⟨place, hfirst⟩ => ⟨place, hfirst.names⟩⟩
  · intro v
    refine ⟨fun hrecurs => ?_, fun hnew => ?_⟩
    · exact ofScalars_eq_of_schemeKeys_eq (schemeKeys_concat_of_recurs hrecurs)
    · rw [entries_eq, schemeKeys_concat_of_not_recurs hnew, List.map_append, ← entries_eq]
      rfl
  · rintro schemes rfl
    refine ⟨fun members => ?_, fun settings hlist url label => renderHyperlink_ne_nil_iff_mem hlist⟩
    exact (denotes_array _).ofMembers_eq (denotes_allowed schemes) members

/-- The number 1 is no key: it equals the boolean before it.  The text "1" is one, and comes after
the text before it. -/
theorem schemes_collapse_mixed :
    let values : List Scalar := [.bool true, .int 1, .text ['x'], .text ['1'], .text ['x']]
    let one : Scalar := .float (.finite false Binary64.leastNormal (-52))
    ofMembers [(allowListKey, .array (values.map .scalar))]
      = .ok { allowList := .ofSchemes ["True".toText, ['x'], ['1']] } ∧
    (∃ u ∈ values, u.Equals one) ∧ AllowList.ofScalars (values ++ [one]) = .ofScalars values := by
  intro values one
  have hlist : AllowList.ofScalars values = .ofSchemes ["True".toText, ['x'], ['1']] := by decide
  have hequals : ∃ u ∈ values, u.Equals one :=
    ⟨.bool true, List.mem_cons_self, sameAs_iff.mp (by decide)⟩
  obtain ⟨hreads, -, -, -, -, -, -, hmore, -⟩ := schemes_collapse values
  have hread := hreads [] {} rfl
  rw [hlist] at hread
  exact ⟨hread, hequals, (hmore one).1 (Or.inl hequals)⟩

end Settings

end TerminalMarkup
