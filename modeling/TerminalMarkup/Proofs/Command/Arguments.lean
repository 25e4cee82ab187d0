/-
Which options a command looks at.

An option is looked up by its flag among the ones that were given, so what is found for
the flags of a kind comes from the given options of that kind and from their order.
Arguments that have the same options of a kind (`AgreeOn`) are the same to everything that
asks for such options only.  The first bad value is such a thing too, if the options of
other kinds have good values (`firstFault?_eq_of_agreeOn`).

A command is never given an option that is not its own (`mem_accepted_of_read`).
-/
import TerminalMarkup.Command.Run
import TerminalMarkup.Proofs.Paths

namespace TerminalMarkup.Command

/-! ### Lists -/

section Lists

variable {α β : Type} {p : α → Bool}

/-- Whether repeated elements are dropped first or last makes no difference to a filter. -/
theorem eraseDups_filter [BEq α] [LawfulBEq α] (p : α → Bool) (l : List α) :
    (l.filter p).eraseDups = l.eraseDups.filter p := by
  match l with
  | [] => rfl
  | x :: l =>
      have ih := eraseDups_filter p (l.filter fun y => !y == x)
      rw [List.eraseDups_cons]
      by_cases hx : p x = true
      · rw [List.filter_cons_of_pos hx, List.filter_cons_of_pos hx, List.eraseDups_cons, ← ih,
          List.filter_filter, List.filter_filter]
        simp only [Bool.and_comm]
      · rw [List.filter_cons_of_neg hx, List.filter_cons_of_neg hx, ← ih, List.filter_filter]
        refine congrArg List.eraseDups (List.filter_congr fun y _ => ?_)
        by_cases hy : y = x
        · rw [hy, eq_false_of_ne_true hx]
          rfl
        · simp [hy]
termination_by l.length
decreasing_by exact Nat.lt_succ_of_le (List.length_filter_le ..)

/-- A search may leave out the elements that give nothing. -/
theorem findSome?_eq_filter {f g : α → Option β} {l : List α}
    (hnone : ∀ x ∈ l, p x = false → f x = none) (hsame : ∀ x, p x = true → f x = g x) :
    l.findSome? f = (l.filter p).findSome? g := by
  induction l with
  | nil => rfl
  | cons x l ih =>
      have hrest := ih fun y hy => hnone y (List.mem_cons_of_mem x hy)
      cases hx : p x with
      | true =>
          rw [List.filter_cons_of_pos hx, List.findSome?_cons, List.findSome?_cons, hsame x hx,
            hrest]
      | false =>
          rw [List.filter_cons_of_neg (by rw [hx]; decide), List.findSome?_cons,
            hnone x List.mem_cons_self hx, hrest]

end Lists

namespace Arguments

variable {kind : Flag → Bool} {a b : Arguments} {flag : Flag}

/-! ### Options of a kind -/

/-- Two lists of arguments have the same options of a kind, with the same values and in the same
order. -/
def AgreeOn (kind : Flag → Bool) (a b : Arguments) : Prop :=
  a.given.filter (kind ·.flag) = b.given.filter (kind ·.flag)

instance : Decidable (AgreeOn kind a b) :=
  inferInstanceAs (Decidable (a.given.filter (kind ·.flag) = b.given.filter (kind ·.flag)))

/-- All that is ever looked up of a single option. -/
theorem AgreeOn.only (h : AgreeOn kind a b) (hflag : kind flag = true) :
    a.given.filter (·.flag == flag) = b.given.filter (·.flag == flag) := by
  have hkind : ∀ g : Given, (g.flag == flag && kind g.flag) = (g.flag == flag) := by
    intro g
    by_cases hg : g.flag = flag
    · rw [hg, hflag, Bool.and_true]
    · rw [beq_eq_false_iff_ne.mpr hg, Bool.false_and]
  have hgiven := congrArg (List.filter (·.flag == flag)) h
  rw [List.filter_filter, List.filter_filter] at hgiven
  simpa only [hkind] using hgiven

theorem AgreeOn.value? (h : AgreeOn kind a b) (hflag : kind flag = true) :
    a.value? flag = b.value? flag := by
  rw [Arguments.value?, Arguments.value?, ← List.getLast?_filter, ← List.getLast?_filter,
    h.only hflag]

theorem AgreeOn.values (h : AgreeOn kind a b) (hflag : kind flag = true) :
    a.values flag = b.values flag := by
  rw [Arguments.values, Arguments.values, h.only hflag]

theorem AgreeOn.has (h : AgreeOn kind a b) (hflag : kind flag = true) :
    a.has flag = b.has flag := by
  have hany : ∀ c : Arguments,
      c.has flag = (c.given.filter (·.flag == flag)).any fun _ => true := by
    intro c
    rw [Arguments.has, List.any_filter]
    simp only [Bool.and_true]
  rw [hany, hany, h.only hflag]

theorem AgreeOn.flags (h : AgreeOn kind a b) : a.flags.filter kind = b.flags.filter kind := by
  have hflags : ∀ c : Arguments,
      c.flags.filter kind = ((c.given.filter (kind ·.flag)).map Given.flag).eraseDups := by
    intro c
    rw [Arguments.flags, ← eraseDups_filter, List.filter_map]
    rfl
  rw [hflags, hflags, h]

theorem AgreeOn.chunkSize (h : AgreeOn kind a b) (hflag : kind .chunkSize = true) :
    a.chunkSize = b.chunkSize := by
  rw [Arguments.chunkSize, Arguments.chunkSize, h.value? hflag]

theorem AgreeOn.presentation (h : AgreeOn kind a b) (hfull : kind .full = true)
    (htitle : kind .title = true) (houtput : kind .output = true) :
    a.presentation = b.presentation := by
  rw [Arguments.presentation, Arguments.presentation, h.has hfull, h.value? htitle,
    h.value? houtput]

theorem AgreeOn.overrides (h : AgreeOn kind a b) (hclasses : kind .classes = true)
    (hescape : kind .noEscape = true) (hschemes : kind .allowScheme = true) :
    a.overrides = b.overrides := by
  rw [Arguments.overrides, Arguments.overrides, h.has hclasses, h.has hescape, h.values hschemes]

theorem mem_flags_iff : flag ∈ a.flags ↔ ∃ g ∈ a.given, g.flag = flag := by
  rw [Arguments.flags, List.mem_eraseDups, List.mem_map]

theorem mem_flags_of_value? {v : Text} (h : a.value? flag = some v) : flag ∈ a.flags := by
  obtain ⟨g, hfind, -⟩ := Option.bind_eq_some_iff.mp h
  have hbeq : (g.flag == flag) = true :=
    List.find?_some (p := fun g : Given => g.flag == flag) hfind
  exact mem_flags_iff.mpr
    ⟨g, List.mem_reverse.mp (List.mem_of_find?_eq_some hfind), eq_of_beq hbeq⟩

/-! ### Accepted options -/

variable {accepted : List Flag} {rest rest' : List Text} {given : List Given}

theorem mem_accepted_of_readNamed {attached : Option Text} (hflag : flag ∈ accepted)
    (h : readNamed flag attached rest = .ok (given, rest')) : ∀ g ∈ given, g.flag ∈ accepted := by
  have hone : ∀ v, given = [⟨flag, v⟩] → ∀ g ∈ given, g.flag ∈ accepted := by
    rintro v rfl g hg
    rw [List.mem_singleton.mp hg]
    exact hflag
  unfold readNamed at h
  repeat' split at h
  all_goals simp only [Except.ok.injEq, Prod.mk.injEq, reduceCtorEq] at h
  all_goals exact hone _ h.1.symm

theorem mem_accepted_of_readLetters {letters : Text}
    (h : readLetters accepted letters rest = .ok (given, rest')) :
    ∀ g ∈ given, g.flag ∈ accepted := by
  induction letters generalizing given rest' with
  | nil =>
      simp only [readLetters, Except.ok.injEq, Prod.mk.injEq] at h
      rw [← h.1]
      exact fun g hg => absurd hg List.not_mem_nil
  | cons c more ih =>
      rw [readLetters] at h
      split at h
      · cases h
      · rename_i flag hfind
        have hflag : flag ∈ accepted := List.mem_of_find?_eq_some hfind
        have hfirst : ∀ v given', (∀ g ∈ given', g.flag ∈ accepted) → given = ⟨flag, v⟩ :: given' →
            ∀ g ∈ given, g.flag ∈ accepted := by
          rintro v given' hgiven rfl g hg
          rcases List.mem_cons.mp hg with rfl | hg
          · exact hflag
          · exact hgiven g hg
        have hnone : ∀ g ∈ ([] : List Given), g.flag ∈ accepted := fun g hg =>
          absurd hg List.not_mem_nil
        split at h
        · split at h
          · exact hfirst _ [] hnone (Prod.mk.inj (Except.ok.inj h)).1.symm
          · exact hfirst _ [] hnone (Prod.mk.inj (Except.ok.inj h)).1.symm
          · cases h
        · split at h
          · cases h
          · rename_i given' rest'' hmore
            exact hfirst _ given' (ih hmore) (Prod.mk.inj (Except.ok.inj h)).1.symm

theorem mem_accepted_of_readOption {argument : Text}
    (h : readOption accepted argument rest = .ok (given, rest')) :
    ∀ g ∈ given, g.flag ∈ accepted := by
  unfold readOption at h
  dsimp only at h
  split at h
  · rename_i flag hfind
    exact mem_accepted_of_readNamed (List.mem_of_find?_eq_some hfind) h
  · split at h
    · cases h
    · exact mem_accepted_of_readLetters h

/-- **Only options that are accepted are ever given.** -/
theorem mem_accepted_of_read {mixed : Bool} {arguments : List Text}
    (h : read accepted mixed arguments = .ok a) : ∀ flag ∈ a.flags, flag ∈ accepted := by
  suffices hgiven : ∀ g ∈ a.given, g.flag ∈ accepted by
    intro flag hflag
    obtain ⟨g, hg, rfl⟩ := mem_flags_iff.mp hflag
    exact hgiven g hg
  fun_induction read accepted mixed arguments generalizing a with
  | case1 =>
      cases h
      exact fun g hg => absurd hg List.not_mem_nil
  | case2 =>
      cases h
      exact fun g hg => absurd hg List.not_mem_nil
  | case3 => cases h
  | case4 argument rest hdashes hoption given rest' hfirst ih =>
      cases hrest : read accepted mixed rest' with
      | error fault =>
          rw [hrest] at h
          cases h
      | ok more =>
          rw [hrest] at h
          cases h
          intro g hg
          rcases List.mem_append.mp hg with hg | hg
          · exact mem_accepted_of_readOption hfirst g hg
          · exact ih hrest g hg
  | case5 argument rest hdashes hoption hmixed ih =>
      cases hrest : read accepted mixed rest with
      | error fault =>
          rw [hrest] at h
          cases h
      | ok more =>
          rw [hrest] at h
          cases h
          have hmore : ∀ g ∈ more.given, g.flag ∈ accepted := ih hrest
          exact hmore
  | case6 =>
      cases h
      exact fun g hg => absurd hg List.not_mem_nil

end Arguments

/-! ### Values -/

variable {files files' : Files} {flag : Flag} {path : Text}

/-- What is wrong with the first bad value, if there is one. -/
def firstFault? (files : Files) (a : Arguments) : Option (UsageFault ⊕ Crash) :=
  a.flags.findSome? fun flag => (a.value? flag).bind (valueFault? files flag)

/-- The ending that a bad value brings about. -/
def faultEnding (verb : Verb) : UsageFault ⊕ Crash → Ending
  | .inl fault => .misused (.verb verb) fault
  | .inr crash => .broken crash

theorem badValue?_eq (files : Files) (verb : Verb) (a : Arguments) :
    badValue? files verb a = (firstFault? files a).map (faultEnding verb) := rfl

theorem badValue?_eq_none_iff {verb : Verb} {a : Arguments} :
    badValue? files verb a = none ↔ firstFault? files a = none := by
  rw [badValue?_eq, Option.map_eq_none_iff]

/-- An option was not given, or its value is good. -/
def GoodValue (files : Files) (a : Arguments) (flag : Flag) : Prop :=
  (a.value? flag).bind (valueFault? files flag) = none

/-- The first bad value is the same for arguments that differ in good values only. -/
theorem firstFault?_eq_of_agreeOn {kind : Flag → Bool} {a b : Arguments}
    (hagree : a.AgreeOn kind b)
    (hsame : ∀ flag value, valueFault? files flag value = valueFault? files' flag value)
    (ha : ∀ flag ∈ a.flags, kind flag = false → GoodValue files a flag)
    (hb : ∀ flag ∈ b.flags, kind flag = false → GoodValue files' b flag) :
    firstFault? files a = firstFault? files' b := by
  rw [firstFault?, firstFault?, findSome?_eq_filter ha fun flag _ => rfl, hagree.flags]
  refine (findSome?_eq_filter hb fun flag hflag => ?_).symm
  rw [hagree.value? hflag, funext (hsame flag)]

/-- A path is a bad value if it has a NUL in it, or if there is a directory. -/
theorem valueFault?_path (hflag : flag = .config ∨ flag = .output) (files : Files) (path : Text) :
    valueFault? files flag path =
      if path.contains '\x00' then some (.inr .embeddedNul)
      else if files.hasDirectory path then some (.inl (.directoryForFile flag path))
      else none := by
  have hnul : files.find path = .error .embeddedNul ↔ path.contains '\x00' = true := by
    rw [List.contains_iff_mem]
    exact Files.find_embeddedNul_iff
  rcases hflag with rfl | rfl
  all_goals
    unfold valueFault?
    dsimp only
    split
    · rename_i hfind
      rw [if_pos (hnul.mp hfind)]
    · rename_i q hfind
      have hgood : ¬path.contains '\x00' = true := by
        intro h
        cases hfind.symm.trans (hnul.mpr h)
      rw [if_neg hgood, if_pos (Files.hasDirectory_iff.mpr ⟨q, hfind⟩)]
    · rename_i hno hnodirectory
      have hgood : ¬path.contains '\x00' = true := fun h => hno (hnul.mpr h)
      have hfile : ¬files.hasDirectory path = true := by
        intro h
        obtain ⟨q, hq⟩ := Files.hasDirectory_iff.mp h
        exact hnodirectory q hq
      rw [if_neg hgood, if_neg hfile]

/-- Only four options can have a bad value. -/
theorem goodValue_other (hchunk : flag ≠ .chunkSize) (htimeout : flag ≠ .timeout)
    (hconfig : flag ≠ .config) (houtput : flag ≠ .output) (files : Files) (a : Arguments) :
    GoodValue files a flag := by
  refine Option.bind_eq_none_iff.mpr fun value _ => ?_
  cases flag <;> first | contradiction | rfl

/-- A new file makes no value better or worse. -/
theorem valueFault?_put {place : Files.Location} (h : files.Leads path place) (bytes : List UInt8)
    (flag : Flag) (value : Text) :
    valueFault? (files.put place bytes) flag value = valueFault? files flag value := by
  by_cases hpath : flag = .config ∨ flag = .output
  · rw [valueFault?_path hpath, valueFault?_path hpath, Files.hasDirectory_put h]
  · cases flag <;> first | rfl | exact absurd (by decide) hpath

/-- The path of settings that can be read is a good value. -/
theorem goodValue_of_read {a : Arguments} {bytes : List UInt8}
    (hpath : a.value? .config = some path) (h : files.read (Files.plainPath path) = .ok bytes) :
    GoodValue files a .config := by
  have hnul : ¬path.contains '\x00' = true := by
    intro hmem
    have hplain := Files.nul_mem_plainPath_iff.mpr (List.contains_iff_mem.mp hmem)
    cases h.symm.trans (Files.read_embeddedNul_iff.mpr hplain)
  have hdirectory : files.hasDirectory path = false := by
    by_cases hne : path = []
    · rw [hne]
      rfl
    · rw [← Files.hasDirectory_plainPath hne, Files.hasDirectory_of_read h]
  rw [GoodValue, hpath, Option.bind_some, valueFault?_path (Or.inl rfl), if_neg hnul, hdirectory]
  rfl

end TerminalMarkup.Command
