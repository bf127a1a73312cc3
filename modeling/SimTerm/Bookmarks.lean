import SimTerm.Entries
import SimTerm.Json.Printer
import SimTerm.Json.Reader

/-!
# Bookmarks

A bookmark is a name for a path. The table of bookmarks is stored as a JSON object of strings in the
order of the names; when it is read, the last member with a name stands.
-/

namespace SimTerm

/-- Names for paths. -/
abbrev Bookmarks := Entries String

namespace Bookmarks

/-- The members of the stored object. -/
def members (marks : Bookmarks) : List (Option String × Json) :=
  marks.map fun (name, path) => (some name, .string (some path))

/-- The stored text of the table. -/
def encode (marks : Bookmarks) : String :=
  (Json.object marks.members).compact

/-- The bookmark that a member describes. -/
def ofMember? : Option String × Json → Option (String × String)
  | (some name, .string (some path)) => some (name, path)
  | _ => none

/-- The table that a stored text describes. -/
def decode? (text : String) : Option Bookmarks :=
  match Json.readStored? text with
  | some (.object ms) => (ms.mapM ofMember?).map Entries.ofList
  | _ => none

end Bookmarks

end SimTerm
