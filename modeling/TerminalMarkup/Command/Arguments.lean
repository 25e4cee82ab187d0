/-
Arguments: which of them are options, which are values, and which are operands.

An argument that begins with a dash and is longer than it is an option, or several
options given by their letters; `--` ends the options.  A value is attached to its
option or is the next argument, whatever that looks like.
-/
import TerminalMarkup.Command.Option

namespace TerminalMarkup.Command

/-- An option that was given, with its value if it has one. -/
structure Given where
  flag : Flag
  value : Option Text
  deriving DecidableEq, Repr

/-- Why arguments cannot be read. -/
inductive ArgumentFault where
  | unknownOption (name : Text)
  | valueNotTaken (name : Text)
  | valueMissing (name : Text)
  deriving DecidableEq, Repr

/-- Arguments that have been read. -/
structure Arguments where
  given : List Given := []
  operands : List Text := []
  deriving DecidableEq, Repr

namespace Arguments

/-- An option given by its name, and the arguments after it. -/
def readNamed (flag : Flag) (attached : Option Text) (rest : List Text) :
    Except ArgumentFault (List Given × List Text) :=
  if flag.takesValue then
    match attached, rest with
    | some v, rest => .ok ([⟨flag, some v⟩], rest)
    | none, v :: rest => .ok ([⟨flag, some v⟩], rest)
    | none, [] => .error (.valueMissing flag.longName)
  else
    match attached with
    | some _ => .error (.valueNotTaken flag.longName)
    | none => .ok ([⟨flag, none⟩], rest)

/-- Options given by letters, and the arguments after them.  The letters after one whose option has
a value are the value. -/
def readLetters (accepted : List Flag) (letters : Text) (rest : List Text) :
    Except ArgumentFault (List Given × List Text) :=
  match letters with
  | [] => .ok ([], rest)
  | c :: more =>
    match accepted.find? (·.letter? == some c) with
    | none => .error (.unknownOption ['-', c])
    | some flag =>
      if flag.takesValue then
        match more, rest with
        | _ :: _, rest => .ok ([⟨flag, some more⟩], rest)
        | [], v :: rest => .ok ([⟨flag, some v⟩], rest)
        | [], [] => .error (.valueMissing ['-', c])
      else
        match readLetters accepted more rest with
        | .error e => .error e
        | .ok (given, rest) => .ok (⟨flag, none⟩ :: given, rest)

/-- Two dashes, which begin a name and end the options. -/
def twoDashes : Text := ['-', '-']

/-- Options that one argument gives, and the arguments after it. -/
def readOption (accepted : List Flag) (argument : Text) (rest : List Text) :
    Except ArgumentFault (List Given × List Text) :=
  let (name, attached) := match Text.cutAt? '=' argument with
    | some (name, value) => (name, some value)
    | none => (argument, none)
  match accepted.find? (·.longName == name) with
  | some flag => readNamed flag attached rest
  | none =>
    if argument.take 2 = twoDashes then .error (.unknownOption name)
    else readLetters accepted (argument.drop 1) rest

theorem length_readNamed_le {flag : Flag} {attached : Option Text} {rest rest' : List Text}
    {given : List Given} (h : readNamed flag attached rest = .ok (given, rest')) :
    rest'.length ≤ rest.length := by
  unfold readNamed at h
  repeat' split at h
  all_goals simp only [Except.ok.injEq, Prod.mk.injEq, reduceCtorEq] at h
  all_goals rw [← h.2]
  all_goals simp

theorem length_readLetters_le {accepted : List Flag} {letters : Text} {rest rest' : List Text}
    {given : List Given} (h : readLetters accepted letters rest = .ok (given, rest')) :
    rest'.length ≤ rest.length := by
  induction letters generalizing given rest' with
  | nil =>
    simp only [readLetters, Except.ok.injEq, Prod.mk.injEq] at h
    exact Nat.le_of_eq (congrArg List.length h.2.symm)
  | cons c more ih =>
    rw [readLetters] at h
    split at h
    · simp at h
    split at h
    · split at h <;> simp only [Except.ok.injEq, Prod.mk.injEq, reduceCtorEq] at h
      all_goals
        obtain ⟨-, rfl⟩ := h
        simp
    · split at h
      · simp at h
      · rename_i hmore
        simp only [Except.ok.injEq, Prod.mk.injEq] at h
        rw [← h.2]
        exact ih hmore

theorem length_readOption_le {accepted : List Flag} {argument : Text} {rest rest' : List Text}
    {given : List Given} (h : readOption accepted argument rest = .ok (given, rest')) :
    rest'.length ≤ rest.length := by
  unfold readOption at h
  dsimp only at h
  split at h
  · exact length_readNamed_le h
  split at h
  · simp at h
  · exact length_readLetters_le h

/-- Whether an argument gives options. -/
def isOption (argument : Text) : Bool :=
  argument.head? == some (.scalar '-') && argument.length != 1

/-- The arguments with options before those they give already. -/
def withGiven (given : List Given) (a : Arguments) : Arguments :=
  { a with given := given ++ a.given }

/-- The arguments with an operand before those they have already. -/
def withOperand (operand : Text) (a : Arguments) : Arguments :=
  { a with operands := operand :: a.operands }

/-- Reads arguments.  If they are not mixed, the first operand ends the options. -/
def read (accepted : List Flag) (mixed : Bool) : List Text → Except ArgumentFault Arguments
  | [] => .ok {}
  | argument :: rest =>
    if argument = twoDashes then .ok { operands := rest }
    else if isOption argument then
      match _h : readOption accepted argument rest with
      | .error e => .error e
      | .ok (given, rest') => (read accepted mixed rest').map (withGiven given)
    else if mixed then (read accepted mixed rest).map (withOperand argument)
    else .ok { operands := argument :: rest }
termination_by arguments => arguments.length
decreasing_by
  · exact Nat.lt_succ_of_le (length_readOption_le _h)
  · exact Nat.lt_succ_self _

/-- The value of an option; of several the last counts. -/
def value? (a : Arguments) (flag : Flag) : Option Text :=
  (a.given.reverse.find? (·.flag == flag)).bind Given.value

/-- All values of an option in order. -/
def values (a : Arguments) (flag : Flag) : List Text :=
  (a.given.filter (·.flag == flag)).filterMap Given.value

/-- Whether an option was given. -/
def has (a : Arguments) (flag : Flag) : Bool := a.given.any (·.flag == flag)

/-- The options that were given, in the order of their first appearance. -/
def flags (a : Arguments) : List Flag := (a.given.map Given.flag).eraseDups

end Arguments

end TerminalMarkup.Command
