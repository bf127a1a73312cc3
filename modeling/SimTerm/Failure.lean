/-!
# Failures

What can go wrong, as causes. The text a user reads is made from the cause by `message`, and nowhere
else.
-/

namespace SimTerm

/-- Why an operation on the tree of files was refused. -/
inductive FileError where
  | noSuchDirectory
  | noSuchFile
  | alreadyExists
  | notADirectory
  | isADirectory
  | notEmpty
  | noSuchSource
  | noSuchDestination
  | removeRoot
  | invalidPath (path : String)
deriving DecidableEq, Repr

/-- Why a command, the storage, the settings or the host failed. -/
inductive Failure where
  | file (cause : FileError)
  | command (text : String)
  | storage (text : String)
  | config (text : String)
  | host (text : String)
  | io (text : String)
deriving DecidableEq, Repr

/-- The wording of a refused file operation. -/
def FileError.message : FileError → String
  | .noSuchDirectory => "no such directory"
  | .noSuchFile => "no such file"
  | .alreadyExists => "exists"
  | .notADirectory => "not a directory"
  | .isADirectory => "is a directory"
  | .notEmpty => "directory not empty"
  | .noSuchSource => "no such source"
  | .noSuchDestination => "no such destination directory"
  | .removeRoot => "cannot remove root"
  | .invalidPath path => "invalid path: " ++ path

/-- The wording of a failure. -/
def Failure.message : Failure → String
  | .file cause => cause.message
  | .command text => text
  | .storage text => "storage error: " ++ text
  | .config text => "config error: " ++ text
  | .host text => text
  | .io text => "I/O error: " ++ text

end SimTerm
