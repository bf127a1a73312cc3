import SimTerm.Json.Printer
import SimTerm.Json.Reader
import SimTerm.Node

/-!
# The stored layout of the tree

A directory is written as `type` (`"dir"`), `children`, `ctime`, `mtime` and a file as `type`
(`"file"`), `content`, `ctime`, `mtime`, in this order. A reader is more generous: members may come
in any order, a missing one is empty or zero, one that the kind does not have is skipped, and a node
may also be an array of its fields in order, those at the end left out. What it does not forgive is
a repeated field, a field of the wrong type, or text that `Json.admitted` refuses.

Below the root, a kind may also be given by its number, `0` for a directory and `1` for a file.
-/

namespace SimTerm.Node

/-- A member with a plain name. -/
def fieldOf (name : String) (j : Json) : Option String × Json :=
  (some name, j)

/-- A moment as a JSON number. -/
def millisJson (t : Millis) : Json :=
  .number (.natural t.toNat)

mutual
/-- The node in the stored layout. -/
def toJson : Node → Json
  | .file content s =>
    .object [fieldOf "type" (.string (some "file")), fieldOf "content" (.string (some content)),
      fieldOf "ctime" (millisJson s.created), fieldOf "mtime" (millisJson s.modified)]
  | .dir entries s =>
    .object [fieldOf "type" (.string (some "dir")),
      fieldOf "children" (.object (entriesJson entries)),
      fieldOf "ctime" (millisJson s.created), fieldOf "mtime" (millisJson s.modified)]

/-- The entries of a directory in the stored layout. -/
def entriesJson : List (String × Node) → List (Option String × Json)
  | [] => []
  | (name, n) :: es => (some name, n.toJson) :: entriesJson es
end

/-- The stored text of a tree. -/
def encode (n : Node) : String :=
  n.toJson.compact

/-- A moment: a natural number below `2 ^ 64`. -/
def millis? : Json → Option Millis
  | .number (.natural n) => if n < UInt64.size then some (UInt64.ofNat n) else none
  | _ => none

/-- A content. -/
def text? : Json → Option String
  | .string text => text
  | _ => none

/-- A field that may be missing; a missing one has the value `default`. -/
def field? (read : Json → Option α) (default : α) : Option Json → Option α
  | none => some default
  | some j => read j

/-- The member called `name`, which may be missing but not repeated. -/
def memberField? (read : Json → Option α) (default : α) (name : String)
    (members : List (Option String × Json)) : Option α :=
  (Json.member? name members).bind (field? read default)

/-- A kind by its name, or by its number if numbers are allowed here. -/
def kind? (numbered : Bool) : Json → Option Kind
  | .string (some "dir") => some .dir
  | .string (some "file") => some .file
  | .number (.natural 0) => if numbered then some .dir else none
  | .number (.natural 1) => if numbered then some .file else none
  | _ => none

/-- The kind among the members, which may not be missing. -/
def kindOf? (numbered : Bool) (members : List (Option String × Json)) : Option Kind :=
  match Json.member? "type" members with
  | some (some j) => kind? numbered j
  | _ => none

/-- The moments among the members. -/
def stamps? (members : List (Option String × Json)) : Option Stamps := do
  let created ← memberField? millis? 0 "ctime" members
  let modified ← memberField? millis? 0 "mtime" members
  some ⟨created, modified⟩

/-- The moments at the end of an array of fields; more than two fields are too many. -/
def stampsOfList? : List Json → Option Stamps
  | [] => some ⟨0, 0⟩
  | [c] => (millis? c).map (⟨·, 0⟩)
  | [c, m] => do some ⟨← millis? c, ← millis? m⟩
  | _ => none

mutual
/-- The node that a value describes. -/
def ofJson? (numbered : Bool) : Json → Option Node
  | .object members =>
    match kindOf? numbered members with
    | some .dir =>
      match childrenOf? members, stamps? members with
      | some entries, some s => some (.dir entries s)
      | _, _ => none
    | some .file =>
      match memberField? text? "" "content" members, stamps? members with
      | some content, some s => some (.file content s)
      | _, _ => none
    | none => none
  | .array (tag :: first :: rest) =>
    match kind? numbered tag with
    | some .dir =>
      match entriesObject? first, stampsOfList? rest with
      | some entries, some s => some (.dir entries s)
      | _, _ => none
    | some .file =>
      match text? first, stampsOfList? rest with
      | some content, some s => some (.file content s)
      | _, _ => none
    | none => none
  | .array [tag] =>
    match kind? numbered tag with
    | some .dir => some (.dir [] ⟨0, 0⟩)
    | some .file => some (.file "" ⟨0, 0⟩)
    | none => none
  | _ => none

/-- The entries given by the member `children`, which may be missing but not repeated. -/
def childrenOf? : List (Option String × Json) → Option (Entries Node)
  | [] => some []
  | (name, j) :: ms =>
    if name = some "children" then
      if ms.any (·.1 = some "children") then none else entriesObject? j
    else childrenOf? ms

/-- The entries that an object describes; of two with one name the later one stands. -/
def entriesObject? : Json → Option (Entries Node)
  | .object members => (pairsOf? members).map Entries.ofList
  | _ => none

/-- The named nodes that the members describe, in their order. -/
def pairsOf? : List (Option String × Json) → Option (List (String × Node))
  | [] => some []
  | (name, j) :: ms =>
    match name, ofJson? true j, pairsOf? ms with
    | some name, some n, some pairs => some ((name, n) :: pairs)
    | _, _, _ => none
end

/-- The tree that a stored text describes. -/
def decode? (text : String) : Option Node :=
  (Json.readStored? text).bind (ofJson? false)

end SimTerm.Node
