import SimTerm.Commands.Files
import SimTerm.Commands.General
import SimTerm.Commands.Marks
import SimTerm.Commands.System
import SimTerm.Shell.Registry

/-!
# The built-in commands
-/

namespace SimTerm.Commands

/-- All built-in commands. -/
def all : List Command :=
  general ++ files ++ bookmarks ++ system

/-- The registry of all built-in commands. -/
def registry : Registry :=
  Registry.registerAll [] all

end SimTerm.Commands
