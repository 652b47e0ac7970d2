import Devit.AtomicPatcher
import Devit.FileSystemContext

/-! The patch tool: it applies a patch with the patcher of the core, and reports for each
section what it takes the section to have done. -/
namespace Devit
open Text Path FileSystem

/-- How the tool fails: with an error, or by breaking off. -/
inductive PatchFailure where
  | error (e : McpError)
  | panic

inductive FileAction where
  | created
  | modified
  | deleted
  deriving DecidableEq, Repr

structure FileChangeSummary where
  path : Text
  action : FileAction
  hunks : Nat
  linesAdded : Nat
  linesRemoved : Nat
  deriving DecidableEq, Repr

namespace McpPatcher

/-! ## Errors -/

section
variable (env : ToolEnvironment)

def invalidDiffError (reason : Text) (lineNumber : Option Nat) : McpError :=
  let message := match lineNumber with
    | some line => "❌ Patch failed: invalid unified diff at line ".toList ++ printNat line ++
        " (".toList ++ reason ++ ")".toList
    | none => "❌ Patch failed: ".toList ++ reason
  .rpc (-32600) message (some (.ofFields [
    ("code", .string "E_INVALID_DIFF".toList), ("message", .string message),
    ("hint", .string "Check that the patch is a valid unified diff".toList),
    ("actionable", .bool true), ("timestamp", .string env.timestamp),
    ("details", .ofFields [("reason", .string reason),
      ("line_number", match lineNumber with
        | some line => .unsigned (.ofNat line)
        | none => .null)])]))

def buildRpcError (rpcCode : Int32) (code : String) (message : Text) (hint : String)
    (details : Json) : McpError :=
  .rpc rpcCode message (some (.ofFields [
    ("code", .string code.toList), ("message", .string message), ("hint", .string hint.toList),
    ("actionable", .bool true), ("timestamp", .string env.timestamp), ("details", details)]))

def fileNotFoundError (path : PathBuf) : McpError :=
  buildRpcError env (-32001) "E_FILE_MISSING"
    ("❌ Patch failed: file '".toList ++ path.text ++ "' not found in workspace".toList)
    "Check that the file exists locally and is tracked by the patch."
    (.ofFields [("path", .string path.text)])

def vcsConflictError (location conflictType : Text) (conflictedFiles : List PathBuf)
    (resolutionHint : Option Text) : McpError :=
  let message := "❌ Patch failed: VCS conflict in ".toList ++ location ++ " (".toList ++
    conflictType ++ ")".toList
  buildRpcError env (-32001) "E_VCS_CONFLICT"
    (match resolutionHint with
      | some hint => message ++ " — ".toList ++ hint
      | none => message)
    "Pull the latest version or resolve git conflicts before replaying the patch."
    (.ofFields ([("location", .string location), ("conflict_type", .string conflictType),
      ("files", .array (conflictedFiles.map fun path => .string path.text))] ++
      match resolutionHint with
        | some hint => [("resolution_hint", .string hint)]
        | none => []))

def internalError (correlationId message : Text) : McpError :=
  let formatted := "❌ Internal error: ".toList ++ message
  .rpc (-32603) formatted (some (.ofFields [
    ("code", .string "E_INTERNAL".toList), ("message", .string formatted),
    ("hint", .string "Contact technical support with error details".toList),
    ("actionable", .bool false), ("timestamp", .string env.timestamp),
    ("details", .ofFields [("component", .string "mcp-tools".toList),
      ("message", .string message), ("correlation_id", .string correlationId)])]))

/-- `map_core_error`, for the errors that the patcher has. -/
def mapCoreError (correlationId : Text) : DevItError → PatchFailure
  | .invalidDiff reason lineNumber => .error (invalidDiffError env reason lineNumber)
  | .policyBlock rule requiredLevel currentLevel context =>
    .error (policyBlockError env (String.ofList rule) (String.ofList requiredLevel)
      (String.ofList currentLevel) context)
  | .protectedPath path protectionRule attemptedOperation =>
    .error (policyBlockError env (String.ofList protectionRule) "privileged" "current"
      ("Protected path ".toList ++ path.text ++ " during ".toList ++ attemptedOperation))
  | .vcsConflict location conflictType conflictedFiles resolutionHint =>
    .error (vcsConflictError env location conflictType conflictedFiles resolutionHint)
  | .io operation path source =>
    .error (ioError env (String.ofList operation) path (osError source).toList)
  | .internal component message =>
    .error (internalError env correlationId (component ++ ": ".toList ++ message))
  | .panic => .panic

end

/-! ## What is reported -/

/-- The path and the action reported for a section. -/
def determineAction (file : FilePatch) : Text × FileAction :=
  let named (path : Option PathBuf) : Text := (path.map (·.text)).getD "<unknown>".toList
  if file.isNewFile || file.oldPath.isNone then (named file.newPath, .created)
  else if file.isDeletedFile || file.newPath.isNone then (named file.oldPath, .deleted)
  else (named (file.newPath <|> file.oldPath), .modified)

/-- The lines a section adds and removes. -/
def countLineChanges (file : FilePatch) : Nat × Nat :=
  ((file.hunks.flatMap (·.lines)).countP fun line => !line.isOld,
    (file.hunks.flatMap (·.lines)).countP fun line => !line.isNew)

def summaryOf (file : FilePatch) : FileChangeSummary where
  path := (determineAction file).1
  action := (determineAction file).2
  hunks := file.hunks.length
  linesAdded := (countLineChanges file).1
  linesRemoved := (countLineChanges file).2

def buildSummaries (parsed : ParsedPatch) : List FileChangeSummary := parsed.files.map summaryOf

/-! ## Applying -/

/-- The first file that is missing, of those that are not to be made. -/
def validateWorkspaceState (parsed : ParsedPatch) (workingDir : PathBuf) (dryRun : Bool)
    (d : Disk) : Option PathBuf :=
  if dryRun then none
  else parsed.files.findSome? fun file =>
    if file.isNewFile then none
    else (file.oldPath <|> file.newPath).filter fun path =>
      !pathExists d (pathJoin workingDir path)

/-- `AtomicPatcher::apply_patch` of the tool. -/
def applyPatch (env : ToolEnvironment) (correlationId : Text) (p : AtomicPatcher) (diff : Text) :
    Action PatchFailure Disk (PatchStats × List FileChangeSummary) := fun d =>
  match PatchParser.fromDiff diff with
  | .error e => (.error (mapCoreError env correlationId e), d)
  | .ok parsed =>
    if parsed.files = [] then
      (.error (.error (invalidDiffError env "No file changes detected".toList none)), d)
    else
      match validateWorkspaceState parsed p.workingDir p.dryRun d with
      | some path => (.error (.error (fileNotFoundError env path)), d)
      | none =>
        match AtomicPatcher.applyPatch p diff d with
        | (.ok stats, d') => (.ok (stats, buildSummaries parsed), d')
        | (.error e, d') => (.error (mapCoreError env correlationId e), d')

end McpPatcher

end Devit
