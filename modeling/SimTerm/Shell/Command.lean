import SimTerm.Line
import SimTerm.Machine

/-!
# Commands

A command has a name, a usage, a description, and a job that it does with its arguments. The job
runs in an environment: the machine, the input from the stage before, and what is left for scripts
to run. It prints, changes the machine, and ends well or with a failure.

A job may run further command lines. How lines are run is not its business, so it is given a
*dispatcher* that knows.
-/

namespace SimTerm

/-- How many scripts may run inside one another. -/
def maxScriptDepth : Nat := 8

/-- How many script lines one entered line may run; also the length of the longest script. -/
def maxScriptLines : Nat := 1000

/-- What a command runs in. -/
structure Environment extends Machine where
  /-- The scripts that are running inside one another. -/
  scriptDepth : Nat := 0
  /-- The script lines that may still be run. -/
  linesLeft : Nat := maxScriptLines
  /-- What the stage before printed. -/
  stdin : String := ""

/-- What became of a stage. -/
structure Outcome where
  name : String
  success : Bool
  /-- The lines that the stage printed, joined by line feeds. -/
  output : String
deriving DecidableEq, Repr

/-- A computation in an environment. -/
abbrev Shell := StateM Environment

/-- A computation in an environment that may fail. -/
abbrev Job := ExceptT Failure Shell

/-- What a job may ask of the commands around it. -/
structure Dispatcher where
  /-- The lines of help, one for each command. -/
  helpLines : List String
  /-- Run a command line in the same environment. -/
  run : String → Shell (List Outcome)

/-- A command. -/
structure Command where
  name : String
  usage : String
  description : String
  job : Dispatcher → List String → Job Unit

/-- The text followed by spaces up to a width. -/
def padRight (width : Nat) (text : String) : String :=
  text ++ String.ofList (List.replicate (width - text.length) ' ')

/-- The line that describes the command in the list of commands. -/
def Command.helpLine (c : Command) : String :=
  padRight 15 c.usage ++ " - " ++ c.description

namespace Shell

/-- Change the session. -/
def onSession (change : Session → Session) : Shell Unit :=
  modify fun e => { e with session := change e.session }

/-- Print a line. -/
def print (line : String) : Shell Unit :=
  onSession (·.print line)

/-- Print lines, one after the other. -/
def printAll : List String → Shell Unit
  | [] => pure ()
  | line :: lines => do
    print line
    printAll lines

/-- The path that an input means where the session stands. -/
def resolve (input : String) : Shell String := do
  let e ← get
  return e.files.resolve e.session.user e.session.cwd input

/-- The path that the first argument means, or the working directory. -/
def targetOrHere (args : List String) : Shell String :=
  match args with
  | input :: _ => resolve input
  | [] => do return (← get).session.cwd

end Shell

namespace Job

/-- Fail with the command's own words. -/
def fail (words : String) : Job α :=
  throw (.command words)

/-- The value, or a failure with the command's own words. -/
def orFail (words : String) : Option α → Job α
  | some a => pure a
  | none => fail words

/-- The path that the first argument means; an argument is needed. -/
def target (args : List String) (missing : String) : Job String :=
  match args with
  | input :: _ => Shell.resolve input
  | [] => fail missing

/-- Change the file system, which may refuse. -/
def onFiles (change : FileSystem → Except Failure Unit × FileSystem) : Job Unit := do
  let e ← get
  let (result, files) := change e.files
  set { e with files }
  match result with
  | .ok () => pure ()
  | .error failure => throw failure

end Job

end SimTerm
