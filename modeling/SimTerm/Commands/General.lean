import SimTerm.Shell.Command

/-!
# General commands

Help and echo, the screen, what the terminal says of itself, and the working directory.
-/

namespace SimTerm

/-- The version that the terminal shows. -/
def version : String := "0.1.0"

/-- The build that the terminal shows. -/
def build : String := "native"

/-- The kernel that the terminal shows. -/
def kernel : String := "cedar-kernel 0.1 (ramfs)"

/-- The line with name, version and build. -/
def banner : String :=
  "Cedar " ++ version ++ " (" ++ build ++ ")"

namespace Commands

/-- List the commands. -/
def help : Command where
  name := "help"
  usage := "help"
  description := "list commands"
  job d _ := do
    Shell.print "Commands:"
    Shell.printAll (d.helpLines.map ("  " ++ ·))

/-- Print the arguments. -/
def echo : Command where
  name := "echo"
  usage := "echo [text...]"
  description := "print text to the terminal"
  job _ args := Shell.print (Text.join ' ' args)

/-- Make the screen blank. -/
def clear : Command where
  name := "clear"
  usage := "clear"
  description := "clear the screen"
  job _ _ := Shell.onSession Session.clearScreen

/-- Print the working directory. -/
def currentDir : Command where
  name := "where"
  usage := "where"
  description := "print the current directory"
  job _ _ := do Shell.print (← get).session.cwd

/-- Print what the terminal is. -/
def about : Command where
  name := "about"
  usage := "about"
  description := "print version/build/kernel info and environment notes"
  job _ _ := do
    let s := (← get).session
    Shell.print banner
    Shell.print ("kernel: " ++ kernel)
    Shell.print ("user: " ++ s.user ++ "@" ++ s.host)
    Shell.print ("cwd: " ++ s.cwd)

/-- The path that an input means, if there is a directory. -/
def directory (input : String) : Job String := do
  let path ← Shell.resolve input
  match (← get).files.node? path with
  | some (.dir ..) => return path
  | _ => Job.fail ("no such directory: " ++ input)

/-- Go to a directory, or home. -/
def changeDir : Command where
  name := "cd"
  usage := "cd [path]"
  description := "change directory (no args -> ~)"
  job _ args := do
    let path ← directory (args.head?.getD "~")
    Shell.onSession (·.changeDir path)

/-- Go to the directory left last. -/
def back : Command where
  name := "back"
  usage := "back"
  description := "go to previous directory"
  job _ _ := do
    Shell.onSession Session.back
    Shell.print (← get).session.cwd

/-- Go to a directory and say so. -/
def jump : Command where
  name := "jump"
  usage := "jump [path|@mark]"
  description := "like cd but supports @bookmarks"
  job _ args := do
    let input ← Job.orFail "missing destination" args.head?
    let path ← directory input
    Shell.print ("jumped to " ++ path)
    Shell.onSession (·.changeDir path)

/-- The general commands. -/
def general : List Command :=
  [help, echo, clear, currentDir, about, changeDir, back, jump]

end Commands

end SimTerm
