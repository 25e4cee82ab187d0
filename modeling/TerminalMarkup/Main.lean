/-
The program.

It looks at the arguments to see which paths a run may use, takes a picture of what
is there, runs, and carries out what the outcome says.  It has no client for
requests, so every download fails to connect.
-/
import TerminalMarkup.Command.Run

namespace TerminalMarkup.Command

/-- The arguments, values of options apart or attached, that may be paths. -/
def candidatePaths (arguments : List Text) : List Text :=
  arguments.flatMap fun a =>
    let attached := (Text.cutAt? '=' a).map Prod.snd
    [a, Files.plainPath a] ++ (attached.map fun p => [p, Files.plainPath p]).getD []
      ++ [a.drop 2, Files.plainPath (a.drop 2)]

/-- The locations on the way to a path, each with a path that leads there. -/
def waypoints (path : Text) : List (Files.Location × Text) :=
  let (start, names) := Files.steps path
  let root : Text := if start = [] then [] else Files.rootName
  (List.range names.length).map fun k =>
    let way := names.take (k + 1)
    (way.foldl Files.Location.enter start, root ++ Files.rootName.intercalate way)

/-- A text as it can be shown: a surrogate, which no string has, as its escape. -/
def shown (t : Text) : String :=
  .ofList (t.flatMap fun
    | .scalar c => [c]
    | .surrogate k => "\\u".toList ++ Nat.toDigits 16 (0xd800 + k))

/-- The number by which systems know an attempt to read a directory. -/
def directoryCode : UInt32 := 21

/-- What is at a path. -/
def probe (path : String) : IO (Option Files.Entry) := do
  try
    let bytes ← IO.FS.readBinFile path
    return some (.file bytes.toList)
  catch
    | .inappropriateType _ code _ => return if code = directoryCode then some .directory else none
    | _ => return none

/-- What is at the paths that a run may use. -/
def snapshot (arguments : List Text) : IO Files := do
  let mut entries := []
  for (place, path) in (candidatePaths arguments).flatMap waypoints do
    if path.contains '\x00' || path.isEmpty || entries.any (·.1 == place) then continue
    if let some entry ← probe (shown path) then
      entries := (place, entry) :: entries
  return ⟨entries⟩

/-- The path, among those that a run may use, that leads to a location. -/
def pathTo? (arguments : List Text) (place : Files.Location) : Option Text :=
  ((candidatePaths arguments).flatMap waypoints).lookup place

/-- The file that is different after a run, and its bytes. -/
def Outcome.change? (o : Outcome) : Option (Files.Location × List UInt8) :=
  match o.ending with
  | .done _ (some (place, t)) => some (place, (Utf8.encode? t).getD [])
  | .unwritten (some place) => some (place, [])
  | _ => none

/-- Runs the program with the arguments of the process. -/
def perform (arguments : List Text) : IO UInt32 := do
  let files ← snapshot arguments
  let stdin ← if arguments.contains Verb.convert.name then (← IO.getStdin).readBinToEnd
    else pure ByteArray.empty
  let world : World := { files, stdin := stdin.toList, respond := fun _ => .failure .connect [] }
  let outcome := run world arguments
  for notice in outcome.notices do
    IO.eprintln (shown notice.line)
  if let some (place, bytes) := outcome.change? then
    if let some path := pathTo? arguments place then
      IO.FS.writeBinFile (shown path) ⟨bytes.toArray⟩
  IO.print (shown outcome.stdout)
  IO.eprint (shown outcome.stderr)
  return outcome.exitCode.toUInt32

end TerminalMarkup.Command

/-- The program. -/
def main (arguments : List String) : IO UInt32 :=
  TerminalMarkup.Command.perform (arguments.map String.toText)
