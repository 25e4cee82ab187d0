/-
Keyed entries in the order of their first insertion.

Writing to a key that is there changes its value and leaves it in its place; a new
key goes to the end.
-/
namespace TerminalMarkup.Entries

variable {κ β : Type} [DecidableEq κ]

/-- The keys in order. -/
def keys (entries : List (κ × β)) : List κ := entries.map Prod.fst

/-- The entries with the value of one key written. -/
def put (key : κ) (value : β) : List (κ × β) → List (κ × β)
  | [] => [(key, value)]
  | (k, v) :: rest => if k = key then (k, value) :: rest else (k, v) :: put key value rest

/-- The value of a key. -/
def get? (key : κ) : List (κ × β) → Option β
  | [] => none
  | (k, v) :: rest => if k = key then some v else get? key rest

/-- A list of pairs written in turn to no entries. -/
def ofPairs (pairs : List (κ × β)) : List (κ × β) :=
  pairs.foldl (fun entries (key, value) => put key value entries) []

/-! ### What a write does -/

theorem keys_put (key : κ) (value : β) (entries : List (κ × β)) :
    keys (put key value entries) =
      if key ∈ keys entries then keys entries else keys entries ++ [key] := by
  induction entries with
  | nil => rfl
  | cons entry rest ih =>
    obtain ⟨k, v⟩ := entry
    by_cases h : k = key
    · simp [put, h, keys]
    · simp only [keys] at ih
      simp only [put, h, if_false, keys, List.map_cons, ih, List.mem_cons, Ne.symm h, false_or]
      by_cases hmem : key ∈ rest.map Prod.fst <;> simp [hmem]

theorem nodup_keys_put {entries : List (κ × β)} (h : (keys entries).Nodup) (key : κ) (value : β) :
    (keys (put key value entries)).Nodup := by
  rw [keys_put]
  split
  · exact h
  · rename_i hmem
    refine List.nodup_append.mpr ⟨h, by simp, ?_⟩
    intro a ha b hb
    simp only [List.mem_singleton] at hb
    exact fun hab => hmem (hb ▸ hab ▸ ha)

theorem get?_put (key other : κ) (value : β) (entries : List (κ × β)) :
    get? other (put key value entries) =
      if key = other then some value else get? other entries := by
  induction entries with
  | nil => rfl
  | cons entry rest ih =>
    obtain ⟨k, v⟩ := entry
    by_cases h : k = key
    · subst h
      by_cases hk : k = other <;> simp [put, get?, hk]
    · by_cases hk : k = other
      · subst hk
        simp [put, get?, h, Ne.symm h]
      · simp [put, get?, h, hk, ih]

theorem nodup_keys_ofPairs (pairs : List (κ × β)) : (keys (ofPairs pairs)).Nodup := by
  unfold ofPairs
  suffices ∀ entries : List (κ × β), (keys entries).Nodup →
      (keys (pairs.foldl (fun entries (key, value) => put key value entries) entries)).Nodup from
    this [] (by simp [keys])
  induction pairs with
  | nil => exact fun _ h => h
  | cons pair rest ih => exact fun _ h => ih _ (nodup_keys_put h _ _)

end TerminalMarkup.Entries
