import SimTerm.Calendar
import SimTerm.Shell.Command
import SimTerm.Text.LineEdit

/-!
# File commands

Listing, reading, writing, making, removing, copying, moving, measuring and searching files and
directories.
-/

namespace SimTerm.Commands

/-- List the entries of a directory. -/
def list : Command where
  name := "cudi"
  usage := "cudi [path]"
  description := "list children of a path (default: current dir)"
  job _ args := do
    let path ← Shell.targetOrHere args
    let entries ← Job.orFail ("not a directory: " ++ path) ((← get).files.list? path)
    Shell.printAll (entries.map fun (name, kind) => if kind = .dir then name ++ "/" else name)

/-- List everything below a directory. -/
def tree : Command where
  name := "tree"
  usage := "tree [path]"
  description := "recursively print children (default: current dir)"
  job _ args := do
    let path ← Shell.targetOrHere args
    Shell.printAll (← Job.orFail ("no such path: " ++ path) ((← get).files.outline? path))

/-- The content of the file at a path. -/
def contentAt (path : String) : Job String := do
  Job.orFail ("no such file: " ++ path) ((← get).files.read? path)

/-- Print the lines of a file. -/
def read : Command where
  name := "read"
  usage := "read [file]"
  description := "print file contents"
  job _ args := do
    let path ← Job.target args "missing file"
    Shell.printAll (Text.lines (← contentAt path))

/-- Print the lines of files in order, up to the first that is missing. -/
def printFiles : List String → Job Unit
  | [] => pure ()
  | input :: inputs => do
    let path ← Shell.resolve input
    Shell.printAll (Text.lines (← contentAt path))
    printFiles inputs

/-- Print the lines of files, or of what the stage before printed. -/
def cat : Command where
  name := "cat"
  usage := "cat [file...]"
  description := "print file(s) contents, or piped input"
  job _ args := do
    match args with
    | [] =>
      let stdin := (← get).stdin
      if stdin = "" then Job.fail "missing file" else Shell.printAll (Text.lines stdin)
    | args => printFiles args

/-- Make an empty file. -/
def makeFile : Command where
  name := "mk"
  usage := "mk [name.ext]"
  description := "create file (empty by default)"
  job _ args := do
    let path ← Job.target args "missing filename"
    Job.onFiles (·.makeFile path)
    Shell.print ("created " ++ path)

/-- Replace one line of a file, or add one. -/
def write : Command where
  name := "write"
  usage := "write [file] [line] [text...]"
  description := "replace one line (use + to append)"
  job _ args := do
    match args with
    | file :: place :: words =>
      let path ← Shell.resolve file
      let content := ((← get).files.read? path).getD ""
      let edited := Text.editLines? (Text.lines content) place (Text.join ' ' words)
      let ls ← Job.orFail "invalid line" edited
      Job.onFiles (·.writeFile path (Text.unlines ls))
      Shell.print ("wrote " ++ path)
    | _ => Job.fail "usage: write file line text"

/-- Make a directory. -/
def makeDir : Command where
  name := "mkdir"
  usage := "mkdir [dir]"
  description := "create directory"
  job _ args := do
    let path ← Job.target args "missing directory"
    Job.onFiles (·.makeDir path)
    Shell.print ("created " ++ path)

/-- Remove an empty directory. -/
def removeDir : Command where
  name := "rmdir"
  usage := "rmdir [dir]"
  description := "remove empty directory"
  job _ args := do
    let path ← Job.target args "missing directory"
    Job.onFiles (·.removeDir path)
    Shell.print ("removed " ++ path)

/-- Remove a file. -/
def removeFile : Command where
  name := "rm"
  usage := "rm [file]"
  description := "remove file"
  job _ args := do
    let path ← Job.target args "missing file"
    Job.onFiles (·.removeFile path)
    Shell.print ("removed " ++ path)

/-- Mark a file as modified, or make it. -/
def touch : Command where
  name := "touch"
  usage := "touch [file]"
  description := "create if missing or update mtime"
  job _ args := do
    let path ← Job.target args "missing file"
    Job.onFiles (·.touch path)
    Shell.print ("touched " ++ path)

/-- The paths that the first two arguments mean. -/
def sourceAndDest (args : List String) : Job (String × String) := do
  match args with
  | source :: dest :: _ => return (← Shell.resolve source, ← Shell.resolve dest)
  | _ => Job.fail "missing args"

/-- Copy a file or directory. -/
def copy : Command where
  name := "cop"
  usage := "cop [src] [dst]"
  description := "copy file/dir (recursive if dir)"
  job _ args := do
    let (source, dest) ← sourceAndDest args
    Job.onFiles (·.copy source dest)
    Shell.print ("copied " ++ source ++ " -> " ++ dest)

/-- Move a file or directory. -/
def move : Command where
  name := "mv"
  usage := "mv [src] [dst]"
  description := "move/rename"
  job _ args := do
    let (source, dest) ← sourceAndDest args
    Job.onFiles (·.move source dest)
    Shell.print ("moved " ++ source ++ " -> " ++ dest)

/-- Print what is known of a node. -/
def stat : Command where
  name := "stat"
  usage := "stat [path]"
  description := "show type, size, timestamps"
  job _ args := do
    let path ← Shell.targetOrHere args
    let info ← Job.orFail ("no such path: " ++ path) ((← get).files.info? path)
    let zone := (← get).zone
    Shell.print ("type: " ++ info.kind.name)
    Shell.print ("size: " ++ toString info.size)
    Shell.print ("ctime: " ++ Calendar.momentText zone info.stamps.created.toNat)
    Shell.print ("mtime: " ++ Calendar.momentText zone info.stamps.modified.toNat)

/-- Print the size of everything at or below a path. -/
def diskUsage : Command where
  name := "du"
  usage := "du [path]"
  description := "total bytes of file content under a path"
  job _ args := do
    let path ← Shell.targetOrHere args
    let files := (← get).files
    match files.node? path with
    | some _ => Shell.print (toString (files.totalSize path) ++ "  " ++ path)
    | none => Job.fail ("no such path: " ++ path)

/-- Print the checksum of a file. -/
def checksum : Command where
  name := "sum"
  usage := "sum [file]"
  description := "print a checksum of a file"
  job _ args := do
    let path ← Job.target args "missing file"
    let sum ← Job.orFail ("no such file: " ++ path) ((← get).files.checksum? path)
    Shell.print (sum ++ "  " ++ path)

/-- Print the paths with a given last name. -/
def find : Command where
  name := "find"
  usage := "find [name] [path]"
  description := "search by name"
  job _ args := do
    let name ← Job.orFail "missing name" args.head?
    let path ← Shell.targetOrHere args.tail
    Shell.printAll ((← get).files.find name path)

/-- Print the paths of the files that contain a text. -/
def seek : Command where
  name := "seek"
  usage := "seek [text] [path]"
  description := "search file contents for text"
  job _ args := do
    let text ← Job.orFail "missing text" args.head?
    let path ← Shell.targetOrHere args.tail
    Shell.printAll ((← get).files.seek text path)

/-- The file commands. -/
def files : List Command :=
  [list, tree, read, cat, makeFile, write, makeDir, removeDir, removeFile, touch, copy, move, stat,
    find, seek, diskUsage, checksum]

end SimTerm.Commands
