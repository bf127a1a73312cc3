import SimTerm.Entries
import SimTerm.Text.Units

/-!
# The tree of files

A node is a file with its content or a directory with its entries; either carries the moments at
which it was created and last modified. A directory owns its entries, so every node has one path.

A tree is read through `find?`, which follows a list of names from a node downwards: together with
`info` it is the flat map from paths to what stands there.
-/

namespace SimTerm

/-- A moment or a span in milliseconds; it wraps after 64 bits. -/
abbrev Millis := UInt64

/-- When a node was created and when it was last modified. -/
structure Stamps where
  created : Millis
  modified : Millis
deriving DecidableEq, Repr

/-- A file or a directory. -/
inductive Node where
  | file (content : String) (stamps : Stamps)
  | dir (entries : List (String × Node)) (stamps : Stamps)

/-- Whether a node is a file or a directory. -/
inductive Kind where
  | file
  | dir
deriving DecidableEq, Repr

/-- How a kind is written. -/
def Kind.name : Kind → String
  | .file => "file"
  | .dir => "dir"

/-- What is known of a node without its content. -/
structure Info where
  kind : Kind
  size : Nat
  stamps : Stamps
deriving DecidableEq, Repr

namespace Node

/-- Both moments are `now`. -/
def stampedAt (now : Millis) : Stamps :=
  ⟨now, now⟩

/-- A new file. -/
def newFile (now : Millis) (content : String) : Node :=
  .file content (stampedAt now)

/-- A new directory without entries. -/
def newDir (now : Millis) : Node :=
  .dir [] (stampedAt now)

/-- Whether the node is a file or a directory. -/
def kind : Node → Kind
  | .file .. => .file
  | .dir .. => .dir

/-- The node is a directory. -/
def isDir (n : Node) : Bool :=
  n.kind = .dir

/-- The moments of the node. -/
def stamps : Node → Stamps
  | .file _ s => s
  | .dir _ s => s

/-- The content of a file. -/
def content? : Node → Option String
  | .file content _ => some content
  | .dir .. => none

/-- The entries of a directory. -/
def entries? : Node → Option (Entries Node)
  | .file .. => none
  | .dir entries _ => some entries

/-- The size of a file in UTF-16 units; a directory has none. -/
def size (n : Node) : Nat :=
  (n.content?.map Text.unitCount).getD 0

/-- What is known of the node without its content. -/
def info (n : Node) : Info :=
  ⟨n.kind, n.size, n.stamps⟩

/-- The node reached by following the names downwards. -/
def find? : Node → List String → Option Node
  | n, [] => some n
  | .file .., _ :: _ => none
  | .dir entries _, name :: names =>
    match Entries.get? name entries with
    | some n => n.find? names
    | none => none

/-- The node modified at `now`. -/
def touch (now : Millis) : Node → Node
  | .file content s => .file content { s with modified := now }
  | .dir entries s => .dir entries { s with modified := now }

mutual
/-- A copy in which every node was created at `now`. -/
def freshCopy (now : Millis) : Node → Node
  | .file content _ => .file content (stampedAt now)
  | .dir entries _ => .dir (freshEntries now entries) (stampedAt now)

/-- Copies of the entries in which every node was created at `now`. -/
def freshEntries (now : Millis) : List (String × Node) → List (String × Node)
  | [] => []
  | (name, n) :: es => (name, n.freshCopy now) :: freshEntries now es
end

theorem find?_nil (n : Node) : n.find? [] = some n := by
  cases n <;> rfl

/-- Names are followed one after the other, so a path can be followed in two parts. -/
theorem find?_append (n : Node) (names more : List String) :
    n.find? (names ++ more) = (n.find? names).bind (·.find? more) := by
  induction names generalizing n with
  | nil => simp [find?_nil]
  | cons name names ih =>
    cases n with
    | file => rfl
    | dir entries s =>
      simp only [List.cons_append, find?]
      cases Entries.get? name entries with
      | none => rfl
      | some m => exact ih m

end Node

end SimTerm
