/-
Entries whose keys are distinct are the pairs they are made of.

Writing a key that is not there adds it at the end, so pairs that are written in turn
come out as they went in, unless a key comes twice; and every one of them is found
under its key.  Where all keys have one value, a key that comes twice counts once.
-/
import Mathlib.Data.List.Induction
import TerminalMarkup.Entries

namespace TerminalMarkup.Entries

variable {κ β : Type} [DecidableEq κ]

theorem put_of_not_mem {key : κ} {entries : List (κ × β)} (h : key ∉ keys entries) (value : β) :
    put key value entries = entries ++ [(key, value)] := by
  induction entries with
  | nil => rfl
  | cons entry rest ih =>
      obtain ⟨k, v⟩ := entry
      simp only [keys, List.map_cons, List.mem_cons, not_or] at h
      rw [put, if_neg (Ne.symm h.1), ih h.2, List.cons_append]

theorem ofPairs_of_nodup {pairs : List (κ × β)} (h : (keys pairs).Nodup) :
    ofPairs pairs = pairs := by
  suffices ∀ entries : List (κ × β), (keys (entries ++ pairs)).Nodup →
      pairs.foldl (fun entries pair => put pair.1 pair.2 entries) entries = entries ++ pairs from
    this [] h
  clear h
  induction pairs with
  | nil => exact fun entries _ => (List.append_nil entries).symm
  | cons pair rest ih =>
      obtain ⟨key, value⟩ := pair
      intro entries hnodup
      have hnew : key ∉ keys entries := by
        rw [keys, List.map_append, List.nodup_append] at hnodup
        intro hmem
        exact hnodup.2.2 key hmem key (by simp) rfl
      have hput : put key value entries = entries ++ [(key, value)] := put_of_not_mem hnew value
      rw [List.foldl_cons]
      simp only [hput]
      rw [ih _ (by simpa using hnodup), List.append_assoc]
      rfl

theorem mem_of_mem_put {key : κ} {value : β} {entry : κ × β} {entries : List (κ × β)}
    (h : entry ∈ put key value entries) : entry = (key, value) ∨ entry ∈ entries := by
  induction entries with
  | nil => exact Or.inl (List.mem_singleton.mp h)
  | cons first rest ih =>
      obtain ⟨k, v⟩ := first
      rw [put] at h
      split at h
      · rename_i hk
        rw [← hk]
        exact (List.mem_cons.mp h).imp_right (List.mem_cons_of_mem _)
      · rcases List.mem_cons.mp h with rfl | h
        · exact Or.inr List.mem_cons_self
        · exact (ih h).imp_right (List.mem_cons_of_mem _)

theorem get?_of_mem {key : κ} {value : β} {entries : List (κ × β)} (h : (keys entries).Nodup)
    (hmem : (key, value) ∈ entries) : get? key entries = some value := by
  induction entries with
  | nil => cases hmem
  | cons entry rest ih =>
      obtain ⟨k, v⟩ := entry
      rw [keys, List.map_cons, List.nodup_cons] at h
      rcases List.mem_cons.mp hmem with heq | hmem
      · obtain ⟨rfl, rfl⟩ := Prod.mk.inj heq
        rw [get?, if_pos rfl]
      · have hne : k ≠ key := fun hk => h.1 (List.mem_map.mpr ⟨_, hmem, hk.symm⟩)
        rw [get?, if_neg hne]
        exact ih h.2 hmem

theorem mem_of_get? {key : κ} {value : β} {entries : List (κ × β)}
    (h : get? key entries = some value) : (key, value) ∈ entries := by
  induction entries with
  | nil => cases h
  | cons entry rest ih =>
      obtain ⟨k, v⟩ := entry
      by_cases hk : k = key
      · rw [get?, if_pos hk] at h
        cases h
        rw [hk]
        exact List.mem_cons_self
      · rw [get?, if_neg hk] at h
        exact List.mem_cons_of_mem _ (ih h)

theorem get?_eq_some_iff {key : κ} {value : β} {entries : List (κ × β)}
    (h : (keys entries).Nodup) : get? key entries = some value ↔ (key, value) ∈ entries :=
  ⟨mem_of_get?, get?_of_mem h⟩

/-- What is found under a key hangs on the entries of this key alone. -/
theorem get?_eq_of_mem_iff {key : κ} {entries entries' : List (κ × β)}
    (h : (keys entries).Nodup) (h' : (keys entries').Nodup)
    (hmem : ∀ value, (key, value) ∈ entries ↔ (key, value) ∈ entries') :
    get? key entries = get? key entries' := by
  refine Option.ext fun value => ?_
  rw [get?_eq_some_iff h, get?_eq_some_iff h', hmem]

/-! ### Pairs written in turn -/

/-- The last pair is written to what the others make. -/
theorem ofPairs_concat (pairs : List (κ × β)) (pair : κ × β) :
    ofPairs (pairs ++ [pair]) = put pair.1 pair.2 (ofPairs pairs) := by
  rw [ofPairs, ofPairs, List.foldl_append]
  rfl

/-- Entries come from nowhere but the pairs they are made of. -/
theorem mem_of_mem_ofPairs {entry : κ × β} {pairs : List (κ × β)} (h : entry ∈ ofPairs pairs) :
    entry ∈ pairs := by
  induction pairs using List.reverseRecOn with
  | nil => cases h
  | append_singleton pairs pair ih =>
      rw [ofPairs_concat] at h
      rcases mem_of_mem_put h with rfl | h
      · exact List.mem_append_right _ List.mem_cons_self
      · exact List.mem_append_left _ (ih h)

theorem put_map {γ : Type} (f : β → γ) (key : κ) (value : β) (entries : List (κ × β)) :
    put key (f value) (entries.map fun entry => (entry.1, f entry.2))
      = (put key value entries).map fun entry => (entry.1, f entry.2) := by
  induction entries with
  | nil => rfl
  | cons entry rest ih =>
      obtain ⟨k, v⟩ := entry
      by_cases hk : k = key
      · rw [List.map_cons, put, if_pos hk, put, if_pos hk, List.map_cons]
      · rw [List.map_cons, put, if_neg hk, ih, put, if_neg hk, List.map_cons]

/-- Values can be changed before or after. -/
theorem ofPairs_map {γ : Type} (f : β → γ) (pairs : List (κ × β)) :
    ofPairs (pairs.map fun pair => (pair.1, f pair.2))
      = (ofPairs pairs).map fun entry => (entry.1, f entry.2) := by
  induction pairs using List.reverseRecOn with
  | nil => rfl
  | append_singleton pairs pair ih =>
      rw [List.map_append, List.map_singleton, ofPairs_concat, ih, ofPairs_concat]
      exact put_map f pair.1 pair.2 _

/-- What is found under a key stays when other keys are changed, if none of them becomes this
key. -/
theorem get?_ofPairs_map {f : κ → κ} {key : κ} (hf : ∀ k, f k = key ↔ k = key)
    (pairs : List (κ × β)) :
    get? key (ofPairs (pairs.map fun pair => (f pair.1, pair.2))) = get? key (ofPairs pairs) := by
  induction pairs using List.reverseRecOn with
  | nil => rfl
  | append_singleton pairs pair ih =>
      rw [List.map_append, List.map_singleton, ofPairs_concat, ofPairs_concat, get?_put, get?_put,
        ih]
      simp only [hf]

/-! ### One value for all keys -/

theorem put_same (key : κ) (value : β) (known : List κ) :
    put key value (known.map (·, value)) =
      (if key ∈ known then known else known ++ [key]).map (·, value) := by
  by_cases hmem : key ∈ known
  · rw [if_pos hmem]
    induction known with
    | nil => cases hmem
    | cons k rest ih =>
        by_cases hk : k = key
        · rw [List.map_cons, put, if_pos hk]
        · have hrest : key ∈ rest := (List.mem_cons.mp hmem).resolve_left (Ne.symm hk)
          rw [List.map_cons, put, if_neg hk, ih hrest]
  · have hkeys : keys (known.map (·, value)) = known := by
      simp [keys, Function.comp_def]
    rw [if_neg hmem, put_of_not_mem (hkeys.symm ▸ hmem), List.map_append]
    rfl

omit [DecidableEq κ] in
/-- One more name is left at the end, unless it came before. -/
theorem eraseDups_concat [BEq κ] [LawfulBEq κ] (names : List κ) (name : κ) :
    (names ++ [name]).eraseDups =
      if name ∈ names then names.eraseDups else names.eraseDups ++ [name] := by
  rw [List.eraseDups_append]
  by_cases hmem : name ∈ names
  · simp [hmem, List.removeAll]
  · simp [hmem, List.removeAll, List.eraseDups_cons]

/-- Keys that all get one value are left in the order in which they first come. -/
theorem ofPairs_same [BEq κ] [LawfulBEq κ] (names : List κ) (value : β) :
    ofPairs (names.map (·, value)) = names.eraseDups.map (·, value) := by
  suffices ∀ known : List κ,
      (names.map (·, value)).foldl (fun entries pair => put pair.1 pair.2 entries)
        (known.eraseDups.map (·, value)) = (known ++ names).eraseDups.map (·, value) from this []
  induction names with
  | nil =>
      intro known
      rw [List.append_nil]
      rfl
  | cons key names ih =>
      intro known
      have hput : put key value (known.eraseDups.map (·, value))
          = (known ++ [key]).eraseDups.map (·, value) := by
        rw [put_same, eraseDups_concat]
        by_cases hmem : key ∈ known <;> simp [hmem]
      rw [List.map_cons, List.foldl_cons, hput, ih, List.append_assoc]
      rfl

end TerminalMarkup.Entries
