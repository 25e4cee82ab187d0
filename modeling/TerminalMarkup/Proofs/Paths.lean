/-
A path and its plain form lead to the same directories.

Empty names and `.` lead from a directory to itself, so a walk that ends at a directory may
take them or leave them out (`walk_plainNames_iff`).  The plain form of a path has the same
names as the path but for these, and starts where the path starts; that is
`steps_plainPath`, which comes down to cutting a text at the slashes it was put together with.

The two forms do not lead to the same files.  With a slash at its end a path leads to
no file at all, and its plain form may.
-/
import TerminalMarkup.Proofs.Files

namespace TerminalMarkup

namespace Text

variable {sep : CodePoint}

/-! ### Fields -/

theorem fields_eq_splitOn (sep : CodePoint) (t : Text) : fields sep t = t.splitOn sep := by
  induction t with
  | nil => rfl
  | cons c t ih =>
      rw [fields, List.splitOn_cons_eq_if_modifyHead, ← ih]
      by_cases hc : c = sep
      · rw [if_pos hc, if_pos (beq_iff_eq.mpr hc)]
      · rw [if_neg hc, if_neg fun h => hc (beq_iff_eq.mp h)]
        cases hrest : fields sep t with
        | nil => exact absurd hrest (fields_ne_nil sep t)
        | cons field more => rfl

/-- Fields that are put together come apart again. -/
theorem fields_intercalate {parts : List Text} (h : ∀ part ∈ parts, sep ∉ part)
    (hne : parts ≠ []) : fields sep ([sep].intercalate parts) = parts := by
  rw [fields_eq_splitOn]
  exact List.splitOn_intercalate sep h hne

theorem not_mem_of_mem_fields {t field : Text} (h : field ∈ fields sep t) : sep ∉ field := by
  induction t generalizing field with
  | nil =>
      rw [List.mem_singleton.mp h]
      exact List.not_mem_nil
  | cons c t ih =>
      rw [fields] at h
      split at h
      · rcases List.mem_cons.mp h with rfl | h
        · exact List.not_mem_nil
        · exact ih h
      · rename_i hc
        split at h
        · rw [List.mem_singleton.mp h, List.mem_singleton]
          exact Ne.symm hc
        · rename_i first more hrest
          rcases List.mem_cons.mp h with rfl | h
          · rw [List.mem_cons, not_or]
            exact ⟨Ne.symm hc, ih (hrest ▸ List.mem_cons_self)⟩
          · exact ih (hrest ▸ List.mem_cons_of_mem first h)

/-- Every character but the separators is in a field. -/
theorem mem_iff_mem_fields {c : CodePoint} (hc : c ≠ sep) {t : Text} :
    c ∈ t ↔ ∃ field ∈ fields sep t, c ∈ field := by
  induction t with
  | nil => simp [fields]
  | cons d t ih =>
      rw [fields, List.mem_cons, ih]
      split
      · rename_i hd
        have hne : c ≠ d := hd ▸ hc
        simp [hne]
      · split
        · rename_i hrest
          simp [hrest]
        · rename_i hrest
          simp [hrest, or_assoc]

end Text

namespace Files

open Text

variable {files : Files} {path : Text}

/-! ### Names that lead nowhere -/

/-- Whether a name leads from a directory to itself. -/
def isIdle (name : Text) : Bool := name == [] || name == selfName

/-- The names that lead on. -/
def plainNames (names : List Text) : List Text := names.filter (!isIdle ·)

theorem plainNames_cons_idle {name : Text} (h : isIdle name = true) (names : List Text) :
    plainNames (name :: names) = plainNames names :=
  List.filter_cons_of_neg (by simp [h])

theorem plainNames_cons {name : Text} (h : isIdle name = false) (names : List Text) :
    plainNames (name :: names) = name :: plainNames names :=
  List.filter_cons_of_pos (by simp [h])

theorem plainNames_plainNames (names : List Text) :
    plainNames (plainNames names) = plainNames names := by
  simp [plainNames]

theorem enter_of_isIdle {name : Text} (h : isIdle name = true) (place : Location) :
    place.enter name = place := by
  refine if_pos ?_
  simpa [isIdle] using h

theorem at?_of_walk_directory {start q : Location} {names : List Text}
    (h : files.walk start names = .ok (q, .directory)) : files.at? start = some .directory := by
  cases names with
  | nil =>
      rw [walk] at h
      split at h
      · rename_i entry hat
        obtain ⟨-, rfl⟩ := Prod.mk.inj (Except.ok.inj h)
        exact hat
      · cases h
  | cons name names =>
      rw [walk] at h
      split at h
      · rename_i hat
        exact hat
      · cases h
      · cases h

/-- On the way to a directory, names that lead nowhere may be left out. -/
theorem walk_plainNames_iff {start q : Location} {names : List Text} :
    files.walk start (plainNames names) = .ok (q, .directory) ↔
      files.walk start names = .ok (q, .directory) := by
  induction names generalizing start with
  | nil => exact Iff.rfl
  | cons name names ih =>
      by_cases hat : files.at? start = some .directory
      · have hstep : files.walk start (name :: names) = files.walk (start.enter name) names := by
          rw [walk, hat]
        rw [hstep]
        cases hname : isIdle name with
        | true => rw [plainNames_cons_idle hname, enter_of_isIdle hname, ih]
        | false =>
            have hplain : files.walk start (name :: plainNames names)
                = files.walk (start.enter name) (plainNames names) := by rw [walk, hat]
            rw [plainNames_cons hname, hplain, ih]
      · exact iff_of_false (fun h => hat (at?_of_walk_directory h))
          (fun h => hat (at?_of_walk_directory h))

/-! ### Plain paths -/

theorem plainPath_eq (path : Text) :
    plainPath path =
      let root : Text := match path with
        | '/' :: '/' :: '/' :: _ => ['/']
        | '/' :: '/' :: _ => ['/', '/']
        | '/' :: _ => ['/']
        | _ => []
      let names := plainNames (fields '/' path)
      if root = [] ∧ names = [] then selfName else root ++ rootName.intercalate names := rfl

theorem steps_slash (rest : Text) : steps ('/' :: rest) = ([rootName], fields '/' rest) := rfl

theorem steps_of_ne_slash (h : ∀ rest, path ≠ .scalar '/' :: rest) :
    steps path = ([], fields '/' path) := by
  unfold steps
  split
  · rename_i rest
    exact absurd rfl (h rest)
  · rfl

theorem plainNames_fields_slash (t : Text) :
    plainNames (fields '/' ('/' :: t)) = plainNames (fields '/' t) := by
  rw [fields, if_pos rfl]
  exact plainNames_cons_idle rfl _

/-- The names of a plain path, put together, come apart again. -/
theorem plainNames_intercalate (t : Text) :
    plainNames (fields '/' (rootName.intercalate (plainNames (fields '/' t))))
      = plainNames (fields '/' t) := by
  by_cases hnone : plainNames (fields '/' t) = []
  · rw [hnone]
    rfl
  · have hslash : ∀ name ∈ plainNames (fields '/' t), ('/' : CodePoint) ∉ name :=
      fun name hname => not_mem_of_mem_fields (List.mem_filter.mp hname).1
    rw [rootName, fields_intercalate hslash hnone, plainNames_plainNames]

/-- The first name of a plain path begins with its own first character. -/
theorem intercalate_ne_slash {t : Text} (hne : plainNames (fields '/' t) ≠ []) :
    rootName.intercalate (plainNames (fields '/' t)) ≠ [] ∧
      ∀ rest, rootName.intercalate (plainNames (fields '/' t)) ≠ .scalar '/' :: rest := by
  cases hnames : plainNames (fields '/' t) with
  | nil => exact absurd hnames hne
  | cons name names =>
      have hname : name ∈ plainNames (fields '/' t) := hnames ▸ List.mem_cons_self
      obtain ⟨hmem, hlead⟩ := List.mem_filter.mp hname
      cases name with
      | nil => exact absurd hlead (by decide)
      | cons c name =>
          have hc : '/' ≠ c := fun h => not_mem_of_mem_fields hmem (h ▸ List.mem_cons_self)
          have hfront : ∃ rest, rootName.intercalate ((c :: name) :: names) = c :: rest := by
            cases names with
            | nil => exact ⟨name, by simp [List.intercalate]⟩
            | cons next more =>
                exact ⟨name ++ .scalar '/' :: (List.intersperse rootName (next :: more)).flatten,
                  by simp [List.intercalate, rootName]⟩
          obtain ⟨rest, hrest⟩ := hfront
          rw [hrest]
          exact ⟨List.cons_ne_nil _ _, fun rest' h => hc (List.cons.inj h).1.symm⟩

/-- **A plain path starts where the path starts, and has the same names that lead on.** -/
theorem steps_plainPath (path : Text) :
    (steps (plainPath path)).1 = (steps path).1 ∧
      plainNames (steps (plainPath path)).2 = plainNames (steps path).2 := by
  by_cases hslash : ∃ rest, path = .scalar '/' :: rest
  · obtain ⟨rest, rfl⟩ := hslash
    have hone :
        plainPath (.scalar '/' :: rest)
          = .scalar '/' :: rootName.intercalate (plainNames (fields '/' rest)) ∨
        plainPath (.scalar '/' :: rest)
          = .scalar '/' :: .scalar '/' :: rootName.intercalate (plainNames (fields '/' rest)) := by
      rw [plainPath_eq, plainNames_fields_slash]
      dsimp only
      split
      · exact Or.inl rfl
      · exact Or.inr rfl
      · exact Or.inl rfl
      · rename_i hno
        exact absurd rfl (hno rest)
    rcases hone with hone | htwo
    · rw [hone, steps_slash, steps_slash]
      exact ⟨rfl, plainNames_intercalate rest⟩
    · rw [htwo, steps_slash, steps_slash]
      refine ⟨rfl, ?_⟩
      rw [plainNames_fields_slash]
      exact plainNames_intercalate rest
  · have hno : ∀ rest, path ≠ .scalar '/' :: rest := fun rest h => hslash ⟨rest, h⟩
    have hplain : plainPath path = if plainNames (fields '/' path) = [] then selfName
        else rootName.intercalate (plainNames (fields '/' path)) := by
      rw [plainPath_eq]
      dsimp only
      split
      · exact absurd rfl (hno _)
      · exact absurd rfl (hno _)
      · exact absurd rfl (hno _)
      · simp
    rw [hplain, steps_of_ne_slash hno]
    by_cases hnone : plainNames (fields '/' path) = []
    · rw [if_pos hnone, hnone]
      exact ⟨rfl, rfl⟩
    · rw [if_neg hnone, steps_of_ne_slash (intercalate_ne_slash hnone).2]
      exact ⟨rfl, plainNames_intercalate path⟩

theorem plainPath_ne_nil (path : Text) : plainPath path ≠ [] := by
  rw [plainPath_eq]
  dsimp only
  split
  · exact List.cons_ne_nil _ _
  · exact List.cons_ne_nil _ _
  · exact List.cons_ne_nil _ _
  · by_cases hnone : plainNames (fields '/' path) = []
    · rw [if_pos ⟨rfl, hnone⟩]
      exact List.cons_ne_nil _ _
    · rw [if_neg fun h => hnone h.2]
      exact (intercalate_ne_slash hnone).1

/-! ### What a plain path leads to -/

theorem mem_iff_mem_steps {c : CodePoint} (hc : c ≠ '/') :
    c ∈ path ↔ ∃ name ∈ (steps path).2, c ∈ name := by
  by_cases hslash : ∃ rest, path = .scalar '/' :: rest
  · obtain ⟨rest, rfl⟩ := hslash
    rw [steps_slash, List.mem_cons, or_iff_right hc]
    exact mem_iff_mem_fields hc
  · rw [steps_of_ne_slash fun rest h => hslash ⟨rest, h⟩]
    exact mem_iff_mem_fields hc

/-- A path and its plain form have a NUL both or neither. -/
theorem nul_mem_plainPath_iff :
    ('\x00' : CodePoint) ∈ plainPath path ↔ ('\x00' : CodePoint) ∈ path := by
  have hplain : ∀ names : List Text,
      (∃ name ∈ names, ('\x00' : CodePoint) ∈ name) ↔
        ∃ name ∈ plainNames names, ('\x00' : CodePoint) ∈ name := by
    intro names
    constructor
    · rintro ⟨name, hname, hnul⟩
      refine ⟨name, List.mem_filter.mpr ⟨hname, ?_⟩, hnul⟩
      cases hidle : isIdle name with
      | false => rfl
      | true =>
          rw [isIdle, Bool.or_eq_true, beq_iff_eq, beq_iff_eq] at hidle
          rcases hidle with rfl | rfl
          · exact absurd hnul List.not_mem_nil
          · exact absurd hnul (by decide)
    · rintro ⟨name, hname, hnul⟩
      exact ⟨name, (List.mem_filter.mp hname).1, hnul⟩
  rw [mem_iff_mem_steps (by decide), mem_iff_mem_steps (by decide), hplain,
    (steps_plainPath path).2, ← hplain]

/-- **A path and its plain form lead to a directory both or neither,** unless the path is empty. -/
theorem hasDirectory_plainPath (hne : path ≠ []) :
    files.hasDirectory (plainPath path) = files.hasDirectory path := by
  have hnul : (plainPath path).contains '\x00' = path.contains '\x00' := by
    rw [Bool.eq_iff_iff, List.contains_iff_mem, List.contains_iff_mem]
    exact nul_mem_plainPath_iff
  rw [Bool.eq_iff_iff, hasDirectory_iff, hasDirectory_iff]
  refine exists_congr fun q => ?_
  rw [find_eq_directory_iff, find_eq_directory_iff, hnul, ← walk_plainNames_iff,
    (steps_plainPath path).1, (steps_plainPath path).2, walk_plainNames_iff]
  exact and_congr_right fun _ => and_congr_left fun _ =>
    iff_of_true (plainPath_ne_nil path) hne

end Files

end TerminalMarkup
