import Devit.Library.FileSystem

/-! The errors of the core engine. Each variant keeps the fields its messages
are built from; correlation ids are random and left out. -/
namespace Devit

/-- `DevItError`, as far as patches, paths and workspaces raise it. -/
inductive DevItError where
  | invalidDiff (reason : Text) (lineNumber : Option Nat)
  | policyBlock (rule requiredLevel currentLevel context : Text)
  | protectedPath (path : PathBuf) (protectionRule attemptedOperation : Text)
  | vcsConflict (location conflictType : Text) (conflictedFiles : List PathBuf)
      (resolutionHint : Option Text)
  | io (operation : Text) (path : Option PathBuf) (source : Files.Errno)
  | internal (component message : Text)
  /-- Not a value of the source's type: the call panics instead of returning. -/
  | panic
  deriving DecidableEq, Repr

abbrev DevItResult := Except DevItError

/-- An error of the system as `std::io::Error` shows it. -/
def osError : Files.Errno → String
  | .notFound => "No such file or directory (os error 2)"
  | .notDirectory => "Not a directory (os error 20)"
  | .isDirectory => "Is a directory (os error 21)"
  | .alreadyExists => "File exists (os error 17)"
  | .tooManyLinks => "Too many levels of symbolic links (os error 40)"
  | .invalidInput => "Invalid argument (os error 22)"
  | .invalidData => "stream did not contain valid UTF-8"

/-- `DevItError` as it is shown. -/
def DevItError.display : DevItError → Text
  | .invalidDiff reason _ => "Invalid patch format: ".toList ++ reason
  | .policyBlock rule requiredLevel currentLevel _ =>
    "Operation blocked by policy rule '".toList ++ rule ++ "': ".toList ++ currentLevel ++
      " insufficient, requires ".toList ++ requiredLevel
  | .protectedPath path _ _ => "Access denied to protected path: ".toList ++ path.text
  | .vcsConflict location conflictType _ _ =>
    "VCS conflict in ".toList ++ location ++ ": ".toList ++ conflictType
  | .io operation _ source =>
    "I/O error in ".toList ++ operation ++ ": ".toList ++ (osError source).toList
  | .internal component message =>
    "Internal error in ".toList ++ component ++ ": ".toList ++ message
  | .panic => []

/-- The error comes from a file system call. -/
def DevItError.isIo : DevItError → Bool
  | .io .. => true
  | _ => false

end Devit
