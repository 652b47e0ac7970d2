import Devit.PatchApply

/-! The policy engine: which changes of files are allowed at which approval level, which
need a confirmation first, and which are denied. -/
namespace Devit
open Text Path

namespace ApprovalLevel

def securityRank : ApprovalLevel → Nat
  | .untrusted => 0
  | .ask => 1
  | .moderate => 2
  | .trusted => 3
  | .privileged _ => 4

/-- Whether a level is enough where another is required. -/
def satisfies : ApprovalLevel → ApprovalLevel → Bool
  | .privileged ours, .privileged required =>
    required.all fun asked => ours.any fun allowed => pathStartsWith asked allowed || same asked allowed
  | .privileged _, _ => true
  | level, required => securityRank required ≤ securityRank level

end ApprovalLevel

namespace PolicyEngine

/-- `policy::FileChange`; counts and sizes are 64-bit. -/
structure FileChange where
  path : PathBuf
  isBinary : Bool
  addsExecBit : Bool
  linesAdded : UInt64
  linesDeleted : UInt64
  isSymlink : Bool
  symlinkTargetAbs : Option PathBuf
  touchesProtected : Bool
  touchesSubmodule : Bool
  touchesGitmodules : Bool
  fileSizeBytes : Option UInt64
  deriving DecidableEq, Repr

structure Config where
  maxFilesModerate : UInt64
  maxLinesModerate : UInt64
  /-- Extensions, in lower case. -/
  smallBinaryWhitelist : List Text
  smallBinaryMaxSize : UInt64
  deriving DecidableEq, Repr

structure Context where
  fileChanges : List FileChange
  requestedApprovalLevel : ApprovalLevel
  protectedPaths : List PathBuf
  config : Config
  deriving DecidableEq, Repr

structure CommonCheckOptions where
  allowPrivilegedSymlinks : Bool
  allowGitmodules : Bool
  deriving DecidableEq, Repr

def CommonCheckOptions.standard : CommonCheckOptions := ⟨false, false⟩

/-- `PolicyEngineConfig::default`. -/
def Config.default : Config where
  maxFilesModerate := 10
  maxLinesModerate := 400
  smallBinaryWhitelist :=
    ["png".toList, "jpg".toList, "jpeg".toList, "ico".toList, "woff".toList, "woff2".toList]
  smallBinaryMaxSize := 1024 * 1024

/-! ## Decisions -/

def allow (reason : Text) : PolicyDecision := ⟨true, false, reason, none⟩

def allowWithConfirmation (reason : Text) : PolicyDecision := ⟨true, true, reason, none⟩

def deny (reason : Text) : PolicyDecision := ⟨false, false, reason, none⟩

/-- `PolicyDecision::downgrade` to the level `Ask`, with a confirmation. -/
def downgradeToAsk (reason : Text) : PolicyDecision := ⟨true, true, reason, some .ask⟩

/-! ## Single changes -/

def isDotEnv (path : PathBuf) : Bool :=
  (fileName path).any fun name => name.map Char.toLower == ".env".toList

def dangerousPaths : List PathBuf :=
  [⟨"/etc".toList⟩, ⟨"/usr".toList⟩, ⟨"/bin".toList⟩, ⟨"/sbin".toList⟩, ⟨"/sys".toList⟩,
    ⟨"/proc".toList⟩, ⟨"/dev".toList⟩]

def isDangerousSymlink (change : FileChange) : Bool :=
  if change.isSymlink = false then false
  else
    match change.symlinkTargetAbs with
    | some target =>
      if isAbsolute target then true
      else if (components target).any (· == .parentDir) then true
      else dangerousPaths.any fun dangerous => pathStartsWith target dangerous
    | none => false

def isProtectedPath (change : FileChange) (context : Context) : Bool :=
  if change.touchesProtected then true
  else context.protectedPaths.any fun guarded => pathStartsWith change.path guarded

def isSimpleChange (context : Context) : Bool :=
  context.fileChanges.length ≤ 2 && context.fileChanges.all fun change =>
    !change.isBinary && !change.addsExecBit && !isProtectedPath change context &&
      !change.touchesSubmodule && !change.touchesGitmodules && !change.isSymlink &&
      !isDotEnv change.path && change.linesAdded + change.linesDeleted ≤ 20

/-- All lines that were added or deleted, with the sums of 64 bits. -/
def totalLinesChanged (context : Context) : UInt64 :=
  context.fileChanges.foldl (fun sum change => sum + (change.linesAdded + change.linesDeleted)) 0

/-- What one change is denied for, at the levels that these options belong to. -/
def commonRestriction (options : CommonCheckOptions) (change : FileChange) :
    Option PolicyDecision :=
  if isDotEnv change.path then some (deny "Modification du fichier .env interdite".toList)
  else if !options.allowGitmodules && change.touchesGitmodules then
    some (deny ("Modification de .gitmodules ".toList ++ "réservée au niveau privileged".toList))
  else if !options.allowPrivilegedSymlinks && isDangerousSymlink change then
    some (deny ("Dangerous symlink to unauthorized path: ".toList ++ change.path.text))
  else none

/-- The first change that is denied decides. -/
def checkCommonRestrictions (context : Context) (options : CommonCheckOptions) :
    Option PolicyDecision :=
  context.fileChanges.findSome? (commonRestriction options)

section
-- `str::to_lowercase`.
variable (lowercase : Text → Text)

def isWhitelistedBinary (change : FileChange) (config : Config) : Bool :=
  if change.isBinary = false then true
  else
    match (extension change.path).map lowercase with
    | some ext =>
      if ext ∈ config.smallBinaryWhitelist then
        match change.fileSizeBytes with
        | some size => size ≤ config.smallBinaryMaxSize
        | none => false
      else false
    | none => false

/-! ## Levels -/

def gitmodulesDenied : PolicyDecision :=
  deny (".gitmodules modification is restricted ".toList ++ "to privileged level".toList)

def evaluateUntrusted (context : Context) : PolicyDecision :=
  (checkCommonRestrictions context .standard).getD <|
    allowWithConfirmation ("Untrusted level: confirmation required for ".toList ++
      printNat context.fileChanges.length ++ " change(s)".toList)

def evaluateAsk (context : Context) : PolicyDecision :=
  (checkCommonRestrictions context .standard).getD <|
    if context.fileChanges.any (·.addsExecBit) then
      allowWithConfirmation
        ("Executable permission change ".toList ++ "requires explicit confirmation".toList)
    else if isSimpleChange context then allow "Simple change, automatically allowed".toList
    else allowWithConfirmation "Change requires user confirmation".toList

def evaluateModerate (context : Context) : PolicyDecision :=
  (checkCommonRestrictions context .standard).getD <|
    if context.fileChanges.length > context.config.maxFilesModerate.toNat then
      downgradeToAsk ("Too many files (".toList ++ printNat context.fileChanges.length ++
        " > ".toList ++ printNat context.config.maxFilesModerate.toNat ++
        "), downgraded to Ask".toList)
    else if totalLinesChanged context > context.config.maxLinesModerate then
      downgradeToAsk ("Too many lines changed (".toList ++
        printNat (totalLinesChanged context).toNat ++ " > ".toList ++
        printNat context.config.maxLinesModerate.toNat ++ "), downgraded to Ask".toList)
    else if context.fileChanges.any (isProtectedPath · context) then
      downgradeToAsk
        ("Protected path modified: ".toList ++ "confirmation required (Ask level)".toList)
    else if context.fileChanges.any (·.addsExecBit) then
      downgradeToAsk "Adding executable bit requires Ask level".toList
    else if context.fileChanges.any (·.isBinary) then
      downgradeToAsk "Binary files require Ask level".toList
    else if context.fileChanges.any (·.touchesGitmodules) then gitmodulesDenied
    else if context.fileChanges.any (·.touchesSubmodule) then
      downgradeToAsk "Submodule change requires Ask level".toList
    else allow "Change allowed at moderate level".toList

def evaluateTrusted (context : Context) : PolicyDecision :=
  (checkCommonRestrictions context .standard).getD <|
    if context.fileChanges.any (·.touchesGitmodules) then gitmodulesDenied
    else if context.fileChanges.any (·.addsExecBit) then
      downgradeToAsk
        ("Adding executable bit requires ".toList ++ "confirmation (Ask level)".toList)
    else
      match context.fileChanges.find? fun change =>
          change.isBinary && !isWhitelistedBinary lowercase change context.config with
      | some change => downgradeToAsk ("Unauthorized binary: ".toList ++ change.path.text)
      | none =>
        if context.fileChanges.any (isProtectedPath · context) then
          allowWithConfirmation
            ("Sensitive path modified: ".toList ++ "confirmation required".toList)
        else allow "Change allowed at trusted level".toList

def evaluatePrivileged (context : Context) (allowedPaths : List PathBuf) : PolicyDecision :=
  (checkCommonRestrictions context ⟨true, true⟩).getD <|
    match context.fileChanges.find? fun change =>
        !allowedPaths.any fun allowed => pathStartsWith change.path allowed with
    | some change =>
      deny ("Path not allowed in privileged mode: ".toList ++ change.path.text)
    | none => allow ("Changement autorisé ".toList ++ "au niveau privileged".toList)

/-- The level that a request is judged at: the requested one, unless it ranks above the
default. -/
def effectiveLevel (requested default : ApprovalLevel) : ApprovalLevel :=
  match requested, default with
  | .privileged _, .privileged _ => requested
  | _, _ => if requested.securityRank > default.securityRank then default else requested

/-- `PolicyEngine::evaluate_changes`, which never fails. Of the engine itself only the
default level matters. -/
def evaluateChanges (default : ApprovalLevel) (context : Context) : PolicyDecision :=
  match effectiveLevel context.requestedApprovalLevel default with
  | .untrusted => evaluateUntrusted context
  | .ask => evaluateAsk context
  | .moderate => evaluateModerate context
  | .trusted => evaluateTrusted lowercase context
  | .privileged allowedPaths => evaluatePrivileged context allowedPaths

end

end PolicyEngine

end Devit
