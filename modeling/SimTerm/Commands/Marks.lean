import SimTerm.Shell.Command

/-!
# Bookmark commands

Setting, listing and removing bookmarks.
-/

namespace SimTerm.Commands

/-- Let a name stand for a path, or for the working directory. -/
def mark : Command where
  name := "mark"
  usage := "mark [name] [path]"
  description := "create bookmark"
  job _ args := do
    let name ← Job.orFail "missing name" args.head?
    let path ← Shell.targetOrHere args.tail
    Job.onFiles (·.addBookmark name path)
    Shell.print ("marked @" ++ name ++ " -> " ++ path)

/-- List the bookmarks. -/
def marks : Command where
  name := "marks"
  usage := "marks"
  description := "list directory bookmarks"
  job _ _ := do
    match (← get).files.bookmarks with
    | [] => Shell.print "(no marks)"
    | entries => Shell.printAll (entries.map fun (name, path) => "@" ++ name ++ " -> " ++ path)

/-- Remove a bookmark. -/
def unmark : Command where
  name := "unmark"
  usage := "unmark [name]"
  description := "remove bookmark"
  job _ args := do
    let name ← Job.orFail "missing name" args.head?
    Job.onFiles (·.removeBookmark name)
    Shell.print ("removed @" ++ name)

/-- The bookmark commands. -/
def bookmarks : List Command :=
  [mark, marks, unmark]

end SimTerm.Commands
