/-
A tree of files, as far as a command looks at it.

Paths are resolved from a working directory, name by name.  The tree is a value:
writing to it gives another tree, and what is in neither a command's arguments nor
its results cannot change.

Left out are permissions, so that every file can be read and written, and links, so that
different places hold different things.  A name is a text like any other, whatever the bytes
are that a system has for it, and has any length.
-/
import TerminalMarkup.Text.Utf8

namespace TerminalMarkup

/-- What may be found at a path. -/
inductive Files.Entry where
  | file (bytes : List UInt8)
  | directory
  deriving DecidableEq, Repr

/-- Where something is: the names on the way from the working directory. -/
abbrev Files.Location := List Text

/-- The files and directories of a tree; directories on the way to an entry are there too. -/
structure Files where
  entries : List (Files.Location × Files.Entry) := []
  deriving DecidableEq, Repr

namespace Files

/-- Why a path cannot be used. -/
inductive Fault where
  /-- There is nothing at the path. -/
  | missing
  /-- A part of the path that should be a directory is a file. -/
  | notDirectory
  /-- There is a directory where a file is needed. -/
  | isDirectory
  /-- The path has a NUL in it, so nothing can be at it. -/
  | embeddedNul
  deriving DecidableEq, Repr

/-- The fault in words. -/
def Fault.message : Fault → Text
  | .missing => "No such file or directory".toText
  | .notDirectory => "Not a directory".toText
  | .isDirectory => "Is a directory".toText
  | .embeddedNul => "embedded null byte".toText

/-- The number by which systems know the fault. -/
def Fault.number : Fault → Nat
  | .missing => 2
  | .notDirectory => 20
  | .isDirectory => 21
  | .embeddedNul => 22

/-! ### Looking up -/

/-- The name of the root directory. -/
def rootName : Text := ['/']

/-- The name of the directory above. -/
def parentName : Text := ['.', '.']

/-- The name of the same directory. -/
def selfName : Text := ['.']

/-- The entry at a location; the working directory, the root and what is above the working
directory are directories. -/
def at? (files : Files) (place : Location) : Option Entry :=
  if place.all (· == parentName) || place == [rootName] then some .directory
  else match files.entries.find? (·.1 == place) with
    | some (_, entry) => some entry
    | none => if files.entries.any (place.isPrefixOf ·.1) then some .directory else none

/-- The location that a name leads to from a directory. -/
def Location.enter (place : Location) (name : Text) : Location :=
  if name = [] ∨ name = selfName then place
  else if name = parentName then
    match place.getLast? with
    | none => [parentName]
    | some last =>
      if last = parentName then place ++ [parentName]
      else if place = [rootName] then place
      else place.dropLast
  else place ++ [name]

/-- The entry that names lead to. -/
def walk (files : Files) (place : Location) : List Text → Except Fault (Location × Entry)
  | [] =>
    match files.at? place with
    | some entry => .ok (place, entry)
    | none => .error .missing
  | name :: rest =>
    match files.at? place with
    | some .directory => files.walk (place.enter name) rest
    | some (.file _) => .error .notDirectory
    | none => .error .missing

/-- Where a path starts, and the names on its way. -/
def steps (path : Text) : Location × List Text :=
  match path with
  | '/' :: rest => ([rootName], Text.fields '/' rest)
  | path => ([], Text.fields '/' path)

/-- The entry at a path, and its location. -/
def find (files : Files) (path : Text) : Except Fault (Location × Entry) :=
  if path.contains '\x00' then .error .embeddedNul
  else if path = [] then .error .missing
  else files.walk (steps path).1 (steps path).2

/-- The bytes of the file at a path. -/
def read (files : Files) (path : Text) : Except Fault (List UInt8) :=
  match files.find path with
  | .error e => .error e
  | .ok (_, .file bytes) => .ok bytes
  | .ok (_, .directory) => .error .isDirectory

/-! ### Writing -/

/-- Where a file of the given path is or would be made. -/
def target (files : Files) (path : Text) : Except Fault Location :=
  match files.find path with
  | .ok (place, .file _) => .ok place
  | .ok (_, .directory) => .error .isDirectory
  | .error .missing =>
    if path = [] then .error .missing
    else
      let (start, names) := steps path
      match files.walk start names.dropLast with
      | .error e => .error e
      | .ok (place, .directory) => .ok (place.enter (names.getLast?.getD []))
      | .ok (_, .file _) => .error .notDirectory
  | .error e => .error e

/-- The tree with a file at a location. -/
def put (files : Files) (place : Location) (bytes : List UInt8) : Files :=
  ⟨(place, .file bytes) :: files.entries.filter (·.1 != place)⟩

/-- The tree after a text was written to the file at a location.  The file is made empty first, and
is left so by a text that has no bytes. -/
def store (files : Files) (place : Location) (t : Text) : Files :=
  files.put place ((Utf8.encode? t).getD [])

/-! ### Plain paths -/

/-- The path without empty names, `.` names and a slash at its end; two slashes at its start mean
something and are kept, any other number of them means one. -/
def plainPath (path : Text) : Text :=
  let root : Text := match path with
    | '/' :: '/' :: '/' :: _ => ['/']
    | '/' :: '/' :: _ => ['/', '/']
    | '/' :: _ => ['/']
    | _ => []
  let names := (Text.fields '/' path).filter fun name => !(name == [] || name == selfName)
  let body := rootName.intercalate names
  if root = [] ∧ names = [] then selfName else root ++ body

example : plainPath "a//./b/".toText = "a/b".toText ∧ plainPath [] = ".".toText := by decide

end Files

end TerminalMarkup
