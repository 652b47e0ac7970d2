import Devit.PatchParser

/-! The file changes that policy and path checks are given for a patch. -/
namespace Devit
open Text Path

inductive FileChangeType where
  | created
  | modified
  | deleted
  | renamed
  | copied
  deriving DecidableEq, Repr

structure FileChange where
  filePath : PathBuf
  changeType : FileChangeType
  linesAdded : Nat
  linesRemoved : Nat
  isBinary : Bool
  addsExecBit : Bool
  isSymlink : Bool
  symlinkTarget : Option PathBuf
  isSubmodule : Bool
  touchesGitmodules : Bool
  deriving DecidableEq, Repr

namespace PatchClassify

/-- The path a section is judged by. -/
def primaryPath (file : FilePatch) : PathBuf :=
  (file.newPath <|> file.oldPath).getD ⟨"<unknown>".toList⟩

/-- Whether both paths are there and differ. -/
def movesFile (file : FilePatch) : Bool :=
  match file.oldPath, file.newPath with
  | some old, some new => !same old new
  | _, _ => false

def changeType (file : FilePatch) : FileChangeType :=
  if file.isNewFile then .created
  else if file.isDeletedFile then .deleted
  else if movesFile file then .renamed
  else .modified

def classifyFile (file : FilePatch) : FileChange where
  filePath := primaryPath file
  changeType := changeType file
  linesAdded := (file.hunks.flatMap (·.lines)).countP fun line => !line.isOld
  linesRemoved := (file.hunks.flatMap (·.lines)).countP fun line => !line.isNew
  isBinary := file.isBinary
  addsExecBit := file.addsExecBit
  isSymlink := false
  symlinkTarget := none
  isSubmodule := false
  touchesGitmodules := same (primaryPath file) ⟨".gitmodules".toList⟩

def classifyChanges (diffContent : Text) : DevItResult (List FileChange) := do
  let parsed ← PatchParser.fromDiff diffContent
  .ok (parsed.files.map classifyFile)

end PatchClassify

end Devit
