import SimTerm.Node
import SimTerm.Path
import SimTerm.Text.Search

/-!
# Walking the tree

Four walks over everything below a node, each in the order of the names and with a directory before
its entries: the paths with a given last name, the paths of the files that hold a text, an indented
list, and the sum of the sizes. Paths are written as text, from the path of the node the walk starts
at.
-/

namespace SimTerm.Node

mutual
/-- The paths below a directory whose last name is `name`. -/
def namedBelow (name path : String) : Node → List String
  | .file .. => []
  | .dir entries _ => namedAmong name path entries

/-- The paths of the entries, and below them, whose last name is `name`. -/
def namedAmong (name path : String) : List (String × Node) → List String
  | [] => []
  | (k, n) :: es =>
    (if k = name then [Path.child path k] else []) ++ namedBelow name (Path.child path k) n ++
      namedAmong name path es
end

/-- The paths with the last name `name` below a directory; a file is found by its own name. -/
def named (name path : String) (n : Node) : List String :=
  match n with
  | .file .. => if Path.leaf path = name then [path] else []
  | .dir .. => namedBelow name path n

mutual
/-- The paths of the files, here or below, that contain `text`. -/
def holding (text path : String) : Node → List String
  | .file content _ => if Text.contains content text then [path] else []
  | .dir entries _ => holdingAmong text path entries

/-- The paths of the files among the entries, or below them, that contain `text`. -/
def holdingAmong (text path : String) : List (String × Node) → List String
  | [] => []
  | (k, n) :: es => holding text (Path.child path k) n ++ holdingAmong text path es
end

mutual
/-- One line for each node below a directory, two more spaces for each level. -/
def outlineBelow (indent : String) : Node → List String
  | .file .. => []
  | .dir entries _ => outlineAmong indent entries

/-- One line for each entry and each node below it; a directory has a slash behind its name. -/
def outlineAmong (indent : String) : List (String × Node) → List String
  | [] => []
  | (k, n) :: es =>
    (if n.isDir then (indent ++ k ++ "/") :: outlineBelow (indent ++ "  ") n else [indent ++ k]) ++
      outlineAmong indent es
end

/-- The indented list of what is below a directory; a file is listed by its own name. -/
def outline (path : String) (n : Node) : List String :=
  match n with
  | .file .. => [Path.leaf path]
  | .dir .. => outlineBelow "" n

mutual
/-- The sizes of all files, here or below, added up. -/
def totalSize : Node → Nat
  | .file content _ => Text.unitCount content
  | .dir entries _ => totalSizeAmong entries

/-- The sizes of all files among the entries, or below them, added up. -/
def totalSizeAmong : List (String × Node) → Nat
  | [] => 0
  | (_, n) :: es => n.totalSize + totalSizeAmong es
end

end SimTerm.Node
