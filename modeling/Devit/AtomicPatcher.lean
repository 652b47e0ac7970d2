import Devit.PatchParser

/-! Applying a parsed patch to the file tree, section by section. Checking and
splicing of a hunk are the source's two cursor loops over the hunk's lines. -/
namespace Devit
open Text Path FileSystem

/-- A call on the disk whose failure is reported with the operation and a path. -/
def orIo {α : Type} (operation : String) (path : PathBuf) (call : Action Files.Errno Disk α) :
    Action DevItError Disk α := fun d =>
  match call d with
  | (.ok a, d') => (.ok a, d')
  | (.error e, d') => (.error (.io operation.toList (some path) e), d')

theorem orIo_of_error {α : Type} {operation : String} {path : PathBuf}
    {call : Action Files.Errno Disk α} {d d' : Disk} {e : Files.Errno}
    (failed : call d = (.error e, d')) :
    orIo operation path call d = (.error (.io operation.toList (some path) e), d') := by
  rw [orIo, failed]

theorem orIo_of_ok {α : Type} {operation : String} {path : PathBuf}
    {call : Action Files.Errno Disk α} {d d' : Disk} {a : α} (ran : call d = (.ok a, d')) :
    orIo operation path call d = (.ok a, d') := by
  rw [orIo, ran]

structure PatchStats where
  filesModified : Nat
  hunksApplied : Nat
  linesAdded : Nat
  linesRemoved : Nat
  filesCreated : Nat
  filesDeleted : Nat
  deriving DecidableEq, Repr

structure AtomicPatcher where
  workingDir : PathBuf
  dryRun : Bool
  deriving DecidableEq, Repr

namespace AtomicPatcher

/-! ## Splicing hunks into lines -/

/-- The conflict raised at a line that is not what the hunk expects. -/
def mismatch (index : Nat) (conflictType hint expected found : Text) : DevItError :=
  .vcsConflict ("line ".toList ++ printNat (index + 1)) conflictType []
    (some (hint ++ expected ++ "', Found: '".toList ++ found ++ "'".toList))

/-- The first loop: context and removed lines must be in the file, as far as the
file goes. -/
def validateLines (lines : List Text) : Nat → List PatchLine → DevItResult Unit
  | _, [] => .ok ()
  | oldIdx, .context contextLine :: rest =>
    match lines[oldIdx]? with
    | some found =>
      if found ≠ contextLine then
        .error (mismatch oldIdx "context_mismatch".toList "Expected: '".toList contextLine found)
      else validateLines lines (oldIdx + 1) rest
    | none => validateLines lines (oldIdx + 1) rest
  | oldIdx, .remove removeLine :: rest =>
    match lines[oldIdx]? with
    | some found =>
      if found ≠ removeLine then
        .error (mismatch oldIdx "remove_mismatch".toList "Expected to remove: '".toList removeLine
          found)
      else validateLines lines (oldIdx + 1) rest
    | none => validateLines lines (oldIdx + 1) rest
  | oldIdx, .add _ :: rest => validateLines lines oldIdx rest

/-- The second loop: the lines it writes and where its cursor ends. -/
def rewriteLines : Nat → List PatchLine → List Text × Nat
  | oldIdx, [] => ([], oldIdx)
  | oldIdx, .context line :: rest =>
    let (newLines, ended) := rewriteLines (oldIdx + 1) rest
    (line :: newLines, ended)
  | oldIdx, .remove _ :: rest => rewriteLines (oldIdx + 1) rest
  | oldIdx, .add line :: rest =>
    let (newLines, ended) := rewriteLines oldIdx rest
    (line :: newLines, ended)

def applyHunkToLines (lines : List Text) (hunk : PatchHunk) : DevItResult (List Text) := do
  let startIdx := if hunk.oldStart > 0 then hunk.oldStart - 1 else 0
  if startIdx > lines.length then
    .error (.invalidDiff ("Patch context starts at line ".toList ++ printNat hunk.oldStart ++
      " but file has only ".toList ++ printNat lines.length ++ " lines".toList)
      (some hunk.oldStart))
  else do
    validateLines lines startIdx hunk.lines
    let (newLines, oldIdx) := rewriteLines startIdx hunk.lines
    if oldIdx > lines.length then
      .error (.invalidDiff ("Patch consumes more lines than available (line ".toList ++
        printNat (oldIdx + 1) ++ " in file with ".toList ++ printNat lines.length ++
        " lines)".toList) (some (oldIdx + 1)))
    else .ok (lines.take startIdx ++ newLines ++ lines.drop oldIdx)

/-- The hunks of one file, the last one first. -/
def applyHunks : List PatchHunk → List Text → DevItResult (List Text)
  | [], lines => .ok lines
  | hunk :: hunks, lines => do
    let later ← applyHunks hunks lines
    applyHunkToLines later hunk

def buildNewContent (hunks : List PatchHunk) (originalLines : List Text)
    (trailingNewline : Bool) : DevItResult Text := do
  let resultLines ← applyHunks hunks originalLines
  let result := join ['\n'] resultLines
  .ok (if trailingNewline ∧ result ≠ [] then result ++ ['\n'] else result)

/-! ## Checks before anything is applied -/

def validatePath (p : AtomicPatcher) (path : PathBuf) : Action DevItError Disk Unit := fun d =>
  if isAbsolute path then
    (.error (.protectedPath path "no_absolute_paths".toList "patch_apply".toList), d)
  else if .parentDir ∈ components path then
    (.error (.protectedPath path "no_path_traversal".toList "patch_apply".toList), d)
  else
    let fullPath := pathJoin p.workingDir path
    if pathExists d fullPath then
      match stat d false fullPath with
      | .error e => (.error (.io "symlink_metadata".toList (some fullPath) e), d)
      | .ok (.link _) =>
        (.error (.protectedPath path "no_symlinks".toList "patch_apply".toList), d)
      | .ok _ => (.ok (), d)
    else (.ok (), d)

/-- The paths a file section names, old before new. -/
def relevantPaths (file : FilePatch) : List PathBuf := file.oldPath.toList ++ file.newPath.toList

def validateSecurity (p : AtomicPatcher) (parsed : ParsedPatch) : Action DevItError Disk Unit :=
  Action.forEach (fun _ path => validatePath p path) () (parsed.files.flatMap relevantPaths)

/-! ## Applying a section -/

/-- The name of the temporary file that replaces a file when it is complete. -/
def tempPath (path : PathBuf) : PathBuf := withExtension path "devit.tmp".toList

/-- Syncing and closing do nothing to the tree. -/
def writeFileAtomically (path : PathBuf) (content : Text) : Action DevItError Disk Unit := do
  let file ← orIo "create temp file" (tempPath path)
    (atPath (tempPath path) (Files.openTruncate (.utf8 [])))
  orIo "write to temp file" (tempPath path) (Files.writeAll file (.utf8 content))
  orIo "atomic rename" path (renameFile (tempPath path) path)

def updateStatsFromHunks (hunks : List PatchHunk) (stats : PatchStats) : PatchStats :=
  { stats with
    hunksApplied := stats.hunksApplied + hunks.length
    linesAdded := stats.linesAdded + (hunks.flatMap (·.lines)).countP fun line => !line.isOld
    linesRemoved := stats.linesRemoved + (hunks.flatMap (·.lines)).countP fun line => !line.isNew }

def readFileLines (path : PathBuf) : Action DevItError Disk (List Text × Bool) := do
  let raw ← orIo "read file" path fun d => (readToString d path, d)
  pure (lines raw, raw.getLast? = some '\n')

/-- `delete_file` once it has its path. -/
def deleteAt (p : AtomicPatcher) (path : PathBuf) (stats : PatchStats) :
    Action DevItError Disk PatchStats := do
  let fullPath := pathJoin p.workingDir path
  let present ← .read (pathExists · fullPath)
  if p.dryRun = false ∧ present then orIo "delete file" fullPath (removeFile fullPath)
  pure { stats with filesDeleted := stats.filesDeleted + 1 }

def deleteFile (p : AtomicPatcher) (file : FilePatch) (stats : PatchStats) :
    Action DevItError Disk PatchStats :=
  match file.oldPath with
  | none => .fail (.invalidDiff "Deleted file missing old path".toList none)
  | some path => deleteAt p path stats

/-- `create_file` once it has its path. -/
def createAt (p : AtomicPatcher) (path : PathBuf) (hunks : List PatchHunk)
    (noTrailingNewline : Bool) (stats : PatchStats) : Action DevItError Disk PatchStats := do
  let fullPath := pathJoin p.workingDir path
  match parent fullPath with
  | none => pure ()
  | some above =>
    if p.dryRun = false then orIo "create parent directories" above (createDirAll above)
  let trailingNewline := !noTrailingNewline
  let content ← .lift (buildNewContent hunks [] trailingNewline)
  if p.dryRun = false then writeFileAtomically fullPath content
  pure (updateStatsFromHunks hunks { stats with filesCreated := stats.filesCreated + 1 })

def createFile (p : AtomicPatcher) (file : FilePatch) (stats : PatchStats) :
    Action DevItError Disk PatchStats :=
  match file.newPath with
  | none => .fail (.invalidDiff "New file missing new path".toList none)
  | some path => createAt p path file.hunks file.noTrailingNewline stats

/-- `modify_file` once it has its path. -/
def modifyAt (p : AtomicPatcher) (path : PathBuf) (hunks : List PatchHunk)
    (noTrailingNewline : Bool) (stats : PatchStats) : Action DevItError Disk PatchStats := do
  let fullPath := pathJoin p.workingDir path
  let present ← .read (pathExists · fullPath)
  let (originalLines, hadTrailingNewline) ←
    if present then readFileLines fullPath else pure ([], true)
  let trailingNewline := if noTrailingNewline then false else hadTrailingNewline
  let newContent ← .lift (buildNewContent hunks originalLines trailingNewline)
  if p.dryRun = false then writeFileAtomically fullPath newContent
  pure (updateStatsFromHunks hunks { stats with filesModified := stats.filesModified + 1 })

def modifyFile (p : AtomicPatcher) (file : FilePatch) (stats : PatchStats) :
    Action DevItError Disk PatchStats :=
  match file.newPath <|> file.oldPath with
  | none => .fail (.invalidDiff "Modified file missing path".toList none)
  | some path => modifyAt p path file.hunks file.noTrailingNewline stats

def applyFilePatch (p : AtomicPatcher) (stats : PatchStats) (file : FilePatch) :
    Action DevItError Disk PatchStats :=
  if file.isDeletedFile then deleteFile p file stats
  else if file.isNewFile then createFile p file stats
  else modifyFile p file stats

def PatchStats.zero : PatchStats := ⟨0, 0, 0, 0, 0, 0⟩

def applyPatch (p : AtomicPatcher) (patchContent : Text) : Action DevItError Disk PatchStats := do
  let parsed ← .lift (PatchParser.fromDiff patchContent)
  validateSecurity p parsed
  Action.forEach (applyFilePatch p) PatchStats.zero parsed.files

end AtomicPatcher

end Devit
