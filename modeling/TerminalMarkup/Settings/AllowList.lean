/-
Which URL schemes a hyperlink may have.
-/
import TerminalMarkup.Entries
import TerminalMarkup.Text.Basic

namespace TerminalMarkup

/-- Schemes with a verdict each, in order, every scheme once. -/
structure AllowList where
  entries : List (Text × Bool)
  distinct : (Entries.keys entries).Nodup
  deriving DecidableEq, Repr

namespace AllowList

/-- The list that the pairs, written in turn, make. -/
def ofPairs (pairs : List (Text × Bool)) : AllowList :=
  ⟨Entries.ofPairs pairs, Entries.nodup_keys_ofPairs pairs⟩

/-- The list that allows the given schemes and no other. -/
def ofSchemes (schemes : List Text) : AllowList := ofPairs (schemes.map (·, true))

/-- Links to the web, encrypted or not. -/
def web : AllowList := ofSchemes ["http".toText, "https".toText]

/-- The list with the verdict on one scheme written. -/
def put (list : AllowList) (scheme : Text) (allowed : Bool) : AllowList :=
  ⟨Entries.put scheme allowed list.entries, Entries.nodup_keys_put list.distinct _ _⟩

/-- Whether a scheme is in the list and allowed; schemes are compared exactly. -/
def allows (list : AllowList) (scheme : Text) : Bool :=
  Entries.get? scheme list.entries == some true

/-- Whether two lists give the same verdicts on the same schemes, whatever their order. -/
def sameAs (a b : AllowList) : Bool :=
  a.entries.length == b.entries.length && a.entries.all (b.entries.contains ·)

end AllowList

end TerminalMarkup
