/-
A file that is written can be read back, and no other file is touched.

The location of a file to be written is found by the names of its path: the last one
leads there from a directory that the others lead to, and there is no directory at the
location itself.  So none of the directories on the way is the place that is written,
all of them are still directories after the write, and the same path leads to the same
location again, where the file now is.

The directory was there before, and so was everything on the way to it.  That is why a write
makes no new directories, and why at every other place there is what was there before
(`at?_put_of_ne`).
-/
import TerminalMarkup.Files

namespace TerminalMarkup.Files

variable {files : Files} {path : Text} {place : Location}

/-! ### Walking -/

theorem walk_concat (files : Files) (place : Location) (names : List Text) (name : Text) :
    files.walk place (names ++ [name]) =
      match files.walk place names with
      | .error fault => .error fault
      | .ok (_, .file _) => .error .notDirectory
      | .ok (dir, .directory) => files.walk (dir.enter name) [] := by
  induction names generalizing place with
  | nil =>
      rw [List.nil_append, walk, walk]
      rcases files.at? place with - | - | -
      · rfl
      · rfl
      · rfl
  | cons first names ih =>
      rw [List.cons_append, walk, walk]
      rcases files.at? place with - | - | -
      · rfl
      · rfl
      · exact ih (place.enter first)

theorem exists_names_concat (path : Text) : ∃ names name, (steps path).2 = names ++ [name] := by
  have hne : (steps path).2 ≠ [] := by
    unfold steps
    split
    · exact Text.fields_ne_nil _ _
    · exact Text.fields_ne_nil _ _
  exact ⟨_, _, (List.dropLast_concat_getLast hne).symm⟩

/-! ### The place of a file to be written -/

/-- The path leads to a location by a last name, from a directory that the names before it lead
to; there is no directory at the location itself. -/
structure Leads (files : Files) (path : Text) (place : Location) : Prop where
  noNul : path.contains '\x00' = false
  ne_nil : path ≠ []
  last : ∃ names name dir, (steps path).2 = names ++ [name] ∧
    files.walk (steps path).1 names = .ok (dir, .directory) ∧ dir.enter name = place
  free : files.at? place ≠ some .directory

theorem find_of_ne_nil (hnul : path.contains '\x00' = false) (hpath : path ≠ []) :
    files.find path = files.walk (steps path).1 (steps path).2 := by
  rw [find, hnul, if_neg Bool.false_ne_true, if_neg hpath]

/-- The location of a file is one more step from a directory, whether the file is there or not. -/
theorem target_concat {names : List Text} {name : Text} (hnul : path.contains '\x00' = false)
    (hpath : path ≠ []) (hnames : (steps path).2 = names ++ [name]) :
    files.target path =
      match files.walk (steps path).1 names with
      | .error fault => .error fault
      | .ok (_, .file _) => .error .notDirectory
      | .ok (dir, .directory) =>
        if files.at? (dir.enter name) = some .directory then .error .isDirectory
        else .ok (dir.enter name) := by
  rw [target, find_of_ne_nil hnul hpath, if_neg hpath]
  generalize steps path = way at hnames ⊢
  obtain ⟨start, names'⟩ := way
  simp only at hnames ⊢
  rw [hnames, walk_concat, List.dropLast_concat, List.getLast?_concat]
  rcases hwalk : files.walk start names with fault | ⟨dir, bytes | -⟩
  · cases fault <;> rfl
  · rfl
  · simp only [walk]
    rcases files.at? (dir.enter name) with - | - | -
    · rfl
    · rfl
    · rfl

theorem leads_of_target (h : files.target path = .ok place) : files.Leads path place := by
  have hnul : path.contains '\x00' = false := by
    refine Bool.eq_false_iff.mpr fun hnul => ?_
    rw [target, find, if_pos hnul] at h
    cases h
  have hpath : path ≠ [] := by
    rintro rfl
    cases h
  obtain ⟨names, name, hnames⟩ := exists_names_concat path
  rw [target_concat hnul hpath hnames] at h
  rcases hwalk : files.walk (steps path).1 names with fault | ⟨dir, bytes | -⟩
  · rw [hwalk] at h
    cases h
  · rw [hwalk] at h
    cases h
  · rw [hwalk] at h
    simp only at h
    split at h
    · cases h
    · rename_i hfree
      cases h
      exact ⟨hnul, hpath, ⟨names, name, dir, hnames, hwalk, rfl⟩, hfree⟩

/-! ### Writing -/

theorem at?_put_self (h : files.at? place ≠ some .directory) (bytes : List UInt8) :
    (files.put place bytes).at? place = some (.file bytes) := by
  rw [at?] at h
  split at h
  · exact absurd rfl h
  · rename_i hplain
    rw [at?, if_neg hplain, put, List.find?_cons_of_pos (by simp)]

theorem find?_put {q : Location} (hne : q ≠ place) (bytes : List UInt8) :
    (files.put place bytes).entries.find? (·.1 == q) = files.entries.find? (·.1 == q) := by
  have hskip : ∀ e : Location × Entry,
      decide ((e.1 != place) = true ∧ (e.1 == q) = true) = (e.1 == q) := by
    intro e
    by_cases he : e.1 = q
    · simp [he, hne]
    · simp [he]
  rw [put, List.find?_cons_of_neg (by simpa using Ne.symm hne), List.find?_filter]
  simp only [hskip]

theorem any_put {q : Location} (h : files.entries.any (q.isPrefixOf ·.1)) (bytes : List UInt8) :
    (files.put place bytes).entries.any (q.isPrefixOf ·.1) := by
  obtain ⟨e, he, hprefix⟩ := List.any_eq_true.mp h
  refine List.any_eq_true.mpr ?_
  by_cases hplace : e.1 = place
  · exact ⟨(place, .file bytes), List.mem_cons_self, hplace ▸ hprefix⟩
  · exact ⟨e, List.mem_cons_of_mem _ (List.mem_filter.mpr ⟨he, by simpa using hplace⟩), hprefix⟩

/-- What was a directory is one after the write. -/
theorem at?_put_of_directory {q : Location} (hq : files.at? q = some .directory) (hne : q ≠ place)
    (bytes : List UInt8) : (files.put place bytes).at? q = some .directory := by
  rw [at?] at hq ⊢
  split at hq
  · rename_i hplain
    rw [if_pos hplain]
  · rename_i hplain
    rw [if_neg hplain, find?_put hne]
    split at hq
    · exact hq
    · split at hq
      · rename_i hany
        exact if_pos (any_put hany bytes)
      · cases hq

theorem walk_put {start dir : Location} {names : List Text}
    (h : files.walk start names = .ok (dir, .directory)) (hfree : files.at? place ≠ some .directory)
    (bytes : List UInt8) : (files.put place bytes).walk start names = .ok (dir, .directory) := by
  have hkept {q : Location} (hq : files.at? q = some .directory) :
      (files.put place bytes).at? q = some .directory :=
    at?_put_of_directory hq (fun hplace => hfree (by rw [← hplace, hq])) bytes
  induction names generalizing start with
  | nil =>
      rw [walk] at h
      split at h
      · rename_i entry hat
        obtain ⟨rfl, rfl⟩ : start = dir ∧ entry = .directory := by simpa using h
        rw [walk, hkept hat]
      · cases h
  | cons name names ih =>
      rw [walk] at h
      split at h
      · rename_i hat
        rw [walk, hkept hat]
        exact ih h
      · cases h
      · cases h

/-- **The bytes that are written to a path are the ones that are read from it.** -/
theorem read_put (h : files.target path = .ok place) (bytes : List UInt8) :
    (files.put place bytes).read path = .ok bytes := by
  have hleads := leads_of_target h
  obtain ⟨names, name, dir, hnames, hwalk, hplace⟩ := hleads.last
  have hfind : (files.put place bytes).find path = .ok (place, .file bytes) := by
    rw [find_of_ne_nil hleads.noNul hleads.ne_nil, hnames, walk_concat,
      walk_put hwalk hleads.free]
    simp only [hplace]
    rw [walk, at?_put_self hleads.free]
  rw [read, hfind]

/-! ### What a write leaves alone

A new file adds a name to a directory that is there, so nothing but the place itself is
different afterwards.  In particular the directories are the ones from before, whatever the
paths they are looked up by, and so are the places where files could be written.
-/

theorem at?_of_walk {start : Location} {names : List Text} {entry : Entry}
    (h : files.walk start names = .ok (place, entry)) : files.at? place = some entry := by
  induction names generalizing start with
  | nil =>
      rw [walk] at h
      split at h
      · rename_i found hat
        obtain ⟨rfl, rfl⟩ : start = place ∧ found = entry := by simpa using h
        exact hat
      · cases h
  | cons name names ih =>
      rw [walk] at h
      split at h
      · exact ih h
      · cases h
      · cases h

/-- On the way to a directory nothing is missing. -/
theorem at?_ne_none_of_prefix {dir q : Location} (hdir : files.at? dir = some .directory)
    (hq : q <+: dir) : files.at? q ≠ none := by
  by_cases hplain : (q.all (· == parentName) || q == [rootName]) = true
  · rw [at?, if_pos hplain]
    nofun
  · have hany : files.entries.any (q.isPrefixOf ·.1) = true := by
      have hplain' : ¬(dir.all (· == parentName) || dir == [rootName]) = true := by
        intro h
        refine hplain ?_
        simp only [Bool.or_eq_true, List.all_eq_true, beq_iff_eq] at h ⊢
        rcases h with h | rfl
        · exact Or.inl fun name hname => h name (hq.subset hname)
        · rcases List.prefix_cons_iff.mp hq with rfl | ⟨rest, rfl, hrest⟩
          · exact Or.inl fun name hname => absurd hname List.not_mem_nil
          · exact Or.inr (by rw [List.prefix_nil.mp hrest])
      rw [at?, if_neg hplain'] at hdir
      split at hdir
      · rename_i e entry hfind
        have hmem := List.mem_of_find?_eq_some hfind
        have hplace : e = dir := by simpa using List.find?_some hfind
        refine List.any_eq_true.mpr ⟨_, hmem, ?_⟩
        rw [List.isPrefixOf_iff_prefix, hplace]
        exact hq
      · split at hdir
        · rename_i hany
          obtain ⟨e, he, hprefix⟩ := List.any_eq_true.mp hany
          rw [List.isPrefixOf_iff_prefix] at hprefix
          exact List.any_eq_true.mpr ⟨e, he, List.isPrefixOf_iff_prefix.mpr (hq.trans hprefix)⟩
        · cases hdir
    rw [at?, if_neg hplain]
    split
    · nofun
    · rw [if_pos hany]
      nofun

/-- A name leads from a directory one step on, or back along the way, or to a directory. -/
theorem enter_cases (files : Files) (dir : Location) (name : Text)
    (hdir : files.at? dir = some .directory) :
    files.at? (dir.enter name) = some .directory ∨ dir.enter name <+: dir ∨
      ∃ last, dir.enter name = dir ++ [last] := by
  unfold Location.enter
  split
  · exact Or.inl hdir
  split
  · split
    · exact Or.inl rfl
    · split
      · exact Or.inr (Or.inr ⟨_, rfl⟩)
      split
      · exact Or.inl hdir
      · exact Or.inr (Or.inl (List.dropLast_prefix dir))
  · exact Or.inr (Or.inr ⟨_, rfl⟩)

/-- On the way to a file to be written nothing is missing. -/
theorem Leads.at?_ne_none (h : files.Leads path place) {q : Location} (hq : q <+: place)
    (hne : q ≠ place) : files.at? q ≠ none := by
  obtain ⟨names, name, dir, -, hwalk, rfl⟩ := h.last
  have hdir := at?_of_walk hwalk
  refine at?_ne_none_of_prefix hdir ?_
  rcases enter_cases files dir name hdir with hat | hback | ⟨last, hon⟩
  · exact absurd hat h.free
  · exact hq.trans hback
  · rw [hon] at hq hne
    exact (List.prefix_concat_iff.mp hq).resolve_left hne

/-- **A write changes nothing at other places.** -/
theorem at?_put_of_ne (h : files.Leads path place) {q : Location} (hne : q ≠ place)
    (bytes : List UInt8) : (files.put place bytes).at? q = files.at? q := by
  by_cases hplain : (q.all (· == parentName) || q == [rootName]) = true
  · rw [at?, if_pos hplain, at?, if_pos hplain]
  cases hfind : files.entries.find? (·.1 == q) with
  | some e =>
      rw [at?, at?, find?_put hne, hfind]
  | none =>
      have hat : ∀ tree : Files, tree.entries.find? (·.1 == q) = none → tree.at? q =
          if tree.entries.any (q.isPrefixOf ·.1) then some .directory else none := by
        intro tree htree
        rw [at?, if_neg hplain, htree]
      rw [hat _ ((find?_put hne bytes).trans hfind), hat files hfind]
      by_cases hany : files.entries.any (q.isPrefixOf ·.1) = true
      · rw [if_pos hany, if_pos (any_put hany bytes)]
      · rw [if_neg hany]
        refine if_neg fun hany' => ?_
        obtain ⟨e, he, hprefix⟩ := List.any_eq_true.mp hany'
        rcases List.mem_cons.mp he with rfl | he
        · refine h.at?_ne_none (List.isPrefixOf_iff_prefix.mp hprefix) hne ?_
          rw [hat files hfind, if_neg hany]
        · exact hany (List.any_eq_true.mpr ⟨e, (List.mem_filter.mp he).1, hprefix⟩)

theorem at?_put_eq_directory_iff (h : files.Leads path place) {q : Location}
    (bytes : List UInt8) :
    (files.put place bytes).at? q = some .directory ↔ files.at? q = some .directory := by
  by_cases hq : q = place
  · subst hq
    rw [at?_put_self h.free]
    exact iff_of_false (by simp) h.free
  · rw [at?_put_of_ne h hq]

/-- The directories that names lead to are the same after a write. -/
theorem walk_put_iff (h : files.Leads path place) {start dir : Location} {names : List Text}
    (bytes : List UInt8) : (files.put place bytes).walk start names = .ok (dir, .directory) ↔
      files.walk start names = .ok (dir, .directory) := by
  constructor
  · intro hwalk
    induction names generalizing start with
    | nil =>
        have hat := (at?_put_eq_directory_iff h bytes).mp (at?_of_walk hwalk)
        rw [walk] at hwalk
        split at hwalk
        · obtain ⟨rfl, -⟩ := Prod.mk.inj (Except.ok.inj hwalk)
          rw [walk, hat]
        · cases hwalk
    | cons name names ih =>
        rw [walk] at hwalk
        split at hwalk
        · rename_i hat
          rw [walk, (at?_put_eq_directory_iff h bytes).mp hat]
          exact ih hwalk
        · cases hwalk
        · cases hwalk
  · exact fun hwalk => walk_put hwalk h.free bytes

variable {other : Text} {q : Location}

theorem leads_put_iff (h : files.Leads path place) (bytes : List UInt8) :
    (files.put place bytes).Leads other q ↔ files.Leads other q := by
  constructor
  · rintro ⟨hnul, hne, ⟨names, name, dir, hnames, hwalk, hq⟩, hfree⟩
    refine ⟨hnul, hne, ⟨names, name, dir, hnames, (walk_put_iff h bytes).mp hwalk, hq⟩, ?_⟩
    exact fun hat => hfree ((at?_put_eq_directory_iff h bytes).mpr hat)
  · rintro ⟨hnul, hne, ⟨names, name, dir, hnames, hwalk, hq⟩, hfree⟩
    refine ⟨hnul, hne, ⟨names, name, dir, hnames, (walk_put_iff h bytes).mpr hwalk, hq⟩, ?_⟩
    exact fun hat => hfree ((at?_put_eq_directory_iff h bytes).mp hat)

theorem target_eq_ok_iff : files.target path = .ok place ↔ files.Leads path place := by
  constructor
  · exact leads_of_target
  · rintro ⟨hnul, hne, ⟨names, name, dir, hnames, hwalk, rfl⟩, hfree⟩
    rw [target_concat hnul hne hnames, hwalk]
    exact if_neg hfree

/-- The places where files can be written are the same after a write. -/
theorem target_put_iff (h : files.Leads path place) (bytes : List UInt8) :
    (files.put place bytes).target other = .ok q ↔ files.target other = .ok q := by
  rw [target_eq_ok_iff, target_eq_ok_iff, leads_put_iff h]

/-- A file is read at the place that its path leads to. -/
theorem read_eq_ok_iff {bytes : List UInt8} :
    files.read path = .ok bytes ↔
      ∃ place, files.target path = .ok place ∧ files.at? place = some (.file bytes) := by
  simp only [target_eq_ok_iff]
  constructor
  · intro h
    rw [read] at h
    split at h
    · cases h
    · rename_i place found hfind
      obtain rfl : found = bytes := Except.ok.inj h
      have htarget : files.target path = .ok place := by rw [target, hfind]
      have hleads := leads_of_target htarget
      refine ⟨place, hleads, ?_⟩
      rw [find_of_ne_nil hleads.noNul hleads.ne_nil] at hfind
      exact at?_of_walk hfind
    · cases h
  · rintro ⟨place, ⟨hnul, hne, ⟨names, name, dir, hnames, hwalk, rfl⟩, -⟩, hat⟩
    have hfind : files.find path = .ok (dir.enter name, .file bytes) := by
      rw [find_of_ne_nil hnul hne, hnames, walk_concat, hwalk]
      simp only [walk, hat]
    rw [read, hfind]

/-- **Other files are read as before.** -/
theorem read_put_of_target_ne (h : files.Leads path place) (hother : files.target other ≠ .ok place)
    (bytes found : List UInt8) :
    (files.put place bytes).read other = .ok found ↔ files.read other = .ok found := by
  rw [read_eq_ok_iff, read_eq_ok_iff]
  refine exists_congr fun q => ?_
  rw [target_put_iff h]
  refine and_congr_right fun hq => ?_
  have hne : q ≠ place := fun hplace => hother (hplace ▸ hq)
  rw [at?_put_of_ne h hne]

theorem find_eq_directory_iff :
    files.find path = .ok (q, .directory) ↔ path.contains '\x00' = false ∧ path ≠ [] ∧
      files.walk (steps path).1 (steps path).2 = .ok (q, .directory) := by
  constructor
  · intro h
    have hnul : path.contains '\x00' = false := by
      refine Bool.eq_false_iff.mpr fun hnul => ?_
      rw [find, if_pos hnul] at h
      cases h
    have hne : path ≠ [] := by
      rintro rfl
      cases h
    rw [find_of_ne_nil hnul hne] at h
    exact ⟨hnul, hne, h⟩
  · rintro ⟨hnul, hne, hwalk⟩
    rw [find_of_ne_nil hnul hne, hwalk]

/-- Whether there is a directory at a path. -/
def hasDirectory (files : Files) (path : Text) : Bool :=
  match files.find path with
  | .ok (_, .directory) => true
  | _ => false

theorem hasDirectory_iff :
    files.hasDirectory path = true ↔ ∃ q, files.find path = .ok (q, .directory) := by
  unfold hasDirectory
  split
  · rename_i q hfind
    exact iff_of_true rfl ⟨q, hfind⟩
  · rename_i hno
    exact iff_of_false Bool.false_ne_true fun ⟨q, hq⟩ => hno q hq

/-- **What is a directory, by whatever path, is one before and after a write.** -/
theorem hasDirectory_put (h : files.Leads path place) (bytes : List UInt8) :
    (files.put place bytes).hasDirectory other = files.hasDirectory other := by
  rw [Bool.eq_iff_iff, hasDirectory_iff, hasDirectory_iff]
  refine exists_congr fun q => ?_
  rw [find_eq_directory_iff, find_eq_directory_iff, walk_put_iff h]

/-- A file that can be read is no directory. -/
theorem hasDirectory_of_read {bytes : List UInt8} (h : files.read path = .ok bytes) :
    files.hasDirectory path = false := by
  rw [read] at h
  unfold hasDirectory
  split
  · rename_i q hfind
    rw [hfind] at h
    cases h
  · rfl

/-! ### Unreadable paths -/

theorem walk_ne_embeddedNul (files : Files) (place : Location) (names : List Text) :
    files.walk place names ≠ .error .embeddedNul := by
  induction names generalizing place with
  | nil =>
      rw [walk]
      split
      · nofun
      · nofun
  | cons name names ih =>
      rw [walk]
      split
      · exact ih _
      · nofun
      · nofun

theorem find_embeddedNul_iff :
    files.find path = .error .embeddedNul ↔ ('\x00' : CodePoint) ∈ path := by
  unfold find
  by_cases hnul : ('\x00' : CodePoint) ∈ path
  · rw [if_pos (List.contains_iff_mem.mpr hnul)]
    exact iff_of_true rfl hnul
  · rw [if_neg (fun h => hnul (List.contains_iff_mem.mp h))]
    refine iff_of_false ?_ hnul
    split
    · nofun
    · exact walk_ne_embeddedNul files _ _

/-- A path is unreadable for a NUL only if it has one. -/
theorem read_embeddedNul_iff :
    files.read path = .error .embeddedNul ↔ ('\x00' : CodePoint) ∈ path := by
  have hfind : files.read path = .error .embeddedNul ↔ files.find path = .error .embeddedNul := by
    rw [read]
    cases files.find path with
    | error fault => simp
    | ok found =>
        obtain ⟨place, entry⟩ := found
        cases entry <;> simp
  exact hfind.trans find_embeddedNul_iff

end TerminalMarkup.Files
