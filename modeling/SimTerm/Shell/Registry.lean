import SimTerm.Shell.Command

/-!
# Running command lines

The commands of a shell stand in a registry in the order of their names. A line is run by running
its parts in order, all of them; a part by running its stages in order up to the first that fails.
The first stage of a part has no input, and each later one has the output of the stage before.
Whatever runs, the input that the environment had before the line is there again after it.

A stage without tokens does nothing. The first token of any other names the command; while it runs,
a capture collects what it prints, and a failure is printed when the capture has ended.

Commands may run lines themselves. Lines are run inside one another at most `nesting` deep, and a
line below that is not run; scripts stop long before, at `maxScriptDepth`.
-/

namespace SimTerm

/-- The commands by their names. -/
abbrev Registry := Entries Command

namespace Registry

/-- Add a command, in the place of another with its name. -/
def register (reg : Registry) (c : Command) : Registry :=
  reg.insert c.name c

/-- Add commands in order. -/
def registerAll (reg : Registry) (cs : List Command) : Registry :=
  cs.foldl register reg

/-- Names and descriptions of the commands. -/
def list (reg : Registry) : List (String × String) :=
  reg.map fun (_, c) => (c.name, c.description)

/-- The lines of help, one for each command. -/
def helpLines (reg : Registry) : List String :=
  reg.map fun (_, c) => c.helpLine

/-- Run a command with a capture around it, and print its failure behind the capture. -/
def runCommand (c : Command) (d : Dispatcher) (name : String) (args : List String) :
    Shell Outcome := do
  Shell.onSession Session.beginCapture
  let result ← (c.job d args).run
  let (lines, session) := (← get).session.endCapture
  Shell.onSession fun _ => session
  let output := Text.unlines lines
  match result with
  | .ok () => return { name, success := true, output }
  | .error failure => do
    -- the capture has ended: the failure is seen, but is no output of the stage
    Shell.print (name ++ ": " ++ failure.message)
    return { name, success := false, output }

/-- Run a stage. -/
def runStage (reg : Registry) (d : Dispatcher) (stage : String) : Shell Outcome :=
  match Line.tokens stage with
  | [] => return { name := "", success := true, output := "" }
  | name :: args =>
    match reg.get? name with
    | some c => runCommand c d name args
    | none => do
      Shell.print (name ++ ": command not found")
      return { name, success := false, output := "" }

/-- Run stages up to the first that fails, with this input for the first. -/
def runStages (reg : Registry) (d : Dispatcher) (stdin : String) :
    List String → Shell (List Outcome)
  | [] => return []
  | stage :: rest => do
    modify fun e => { e with stdin }
    let outcome ← reg.runStage d stage
    if outcome.success then
      return outcome :: (← runStages reg d outcome.output rest)
    else
      return [outcome]

/-- Run every part. -/
def runParts (reg : Registry) (d : Dispatcher) : List String → Shell (List Outcome)
  | [] => return []
  | part :: rest => do
    let outcomes ← reg.runStages d "" (Line.stages part)
    return outcomes ++ (← runParts reg d rest)

/-- Run a line with the given dispatcher for the lines inside it. -/
def runLine (reg : Registry) (d : Dispatcher) (line : String) : Shell (List Outcome) := do
  let stdin := (← get).stdin
  let outcomes ← reg.runParts d (Line.parts line)
  modify fun e => { e with stdin }
  return outcomes

/-- How deep lines may be run inside one another. -/
def nesting : Nat := 4096

/-- Run a line inside which lines may be nested this deep. -/
def executeWithin (reg : Registry) : Nat → String → Shell (List Outcome)
  | 0, _ => return []
  | depth + 1, line => reg.runLine ⟨reg.helpLines, executeWithin reg depth⟩ line

/-- Run a line. -/
def execute (reg : Registry) (line : String) : Shell (List Outcome) :=
  reg.executeWithin nesting line

end Registry

end SimTerm
