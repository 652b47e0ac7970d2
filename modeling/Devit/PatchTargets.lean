import Devit.AtomicPatcher
import Devit.PatchClassify

/-! Which path each section of a patch acts on, against the path it is judged by.
The patcher and the classification choose a path on their own: for a section
that deletes a file they look at different fields. -/
namespace Devit
open Text Path FileSystem

/-- What a section does, and to which path. -/
inductive FileOp where
  | delete (path : PathBuf)
  | create (path : PathBuf)
  | modify (path : PathBuf)
  deriving DecidableEq, Repr

namespace FileOp

/-- The path acted on. -/
def path : FileOp → PathBuf
  | .delete path => path
  | .create path => path
  | .modify path => path

end FileOp

namespace AtomicPatcher

/-- The choice the patcher makes for a section. -/
def fileOp (file : FilePatch) : Option FileOp :=
  if file.isDeletedFile then file.oldPath.map .delete
  else if file.isNewFile then file.newPath.map .create
  else (file.newPath <|> file.oldPath).map .modify

/-- Carrying out a choice: of the section, only the hunks and the marker are
still looked at. -/
def perform (p : AtomicPatcher) (hunks : List PatchHunk) (noTrailingNewline : Bool)
    (stats : PatchStats) : FileOp → Action DevItError Disk PatchStats
  | .delete path => deleteAt p path stats
  | .create path => createAt p path hunks noTrailingNewline stats
  | .modify path => modifyAt p path hunks noTrailingNewline stats

/-- Applying a section is carrying out its choice. -/
theorem applyFilePatch_eq_perform {file : FilePatch} {op : FileOp} (chosen : fileOp file = some op)
    (p : AtomicPatcher) (stats : PatchStats) :
    applyFilePatch p stats file = perform p file.hunks file.noTrailingNewline stats op := by
  unfold fileOp at chosen
  unfold applyFilePatch deleteFile createFile modifyFile
  split at chosen
  · rename_i deleted
    obtain ⟨path, found, rfl⟩ := Option.map_eq_some_iff.mp chosen
    simp only [deleted, found, ↓reduceIte, perform]
  · rename_i kept
    split at chosen
    · rename_i new
      obtain ⟨path, found, rfl⟩ := Option.map_eq_some_iff.mp chosen
      simp only [kept, new, found, ↓reduceIte, perform, Bool.false_eq_true]
    · rename_i old
      obtain ⟨path, found, rfl⟩ := Option.map_eq_some_iff.mp chosen
      simp only [kept, old, found, ↓reduceIte, perform, Bool.false_eq_true]

/-- A section without a choice is refused, and touches nothing. -/
theorem applyFilePatch_no_op {file : FilePatch} (none_chosen : fileOp file = none)
    (p : AtomicPatcher) (stats : PatchStats) (d : Disk) :
    ∃ reason, applyFilePatch p stats file d = (.error (.invalidDiff reason none), d) := by
  unfold fileOp at none_chosen
  unfold applyFilePatch deleteFile createFile modifyFile
  split at none_chosen
  · rename_i deleted
    rw [Option.map_eq_none_iff] at none_chosen
    exact ⟨_, by simp only [deleted, none_chosen, ↓reduceIte, Action.fail_apply]; rfl⟩
  · rename_i kept
    split at none_chosen
    · rename_i new
      rw [Option.map_eq_none_iff] at none_chosen
      exact ⟨_, by simp only [kept, new, none_chosen, ↓reduceIte, Action.fail_apply,
        Bool.false_eq_true]; rfl⟩
    · rename_i old
      rw [Option.map_eq_none_iff] at none_chosen
      exact ⟨_, by simp only [kept, old, none_chosen, ↓reduceIte, Action.fail_apply,
        Bool.false_eq_true]; rfl⟩

end AtomicPatcher

namespace PatchTargets
open AtomicPatcher PatchClassify

/-- Every path a section acts on is one the policy is asked about. -/
def ActsOnJudgedPaths (diffContent : Text) : Prop :=
  ∀ parsed changes, PatchParser.fromDiff diffContent = .ok parsed →
    classifyChanges diffContent = .ok changes →
    ∀ file ∈ parsed.files, ∀ op, fileOp file = some op →
      ∃ change ∈ changes, same op.path change.filePath = true

/-- Every section that deletes and names two paths names as its old one a path
that some section is judged by. -/
def DeletesJudgedPaths (diffContent : Text) : Prop :=
  ∀ parsed, PatchParser.fromDiff diffContent = .ok parsed →
    ∀ file ∈ parsed.files, file.isDeletedFile = true → ∀ old new, file.oldPath = some old →
      file.newPath = some new → ∃ judged ∈ parsed.files, same old (primaryPath judged) = true

theorem same_refl (p : PathBuf) : same p p = true := by simp [same]

theorem classifyChanges_eq {diffContent : Text} {parsed : ParsedPatch}
    (read : PatchParser.fromDiff diffContent = .ok parsed) :
    classifyChanges diffContent = .ok (parsed.files.map classifyFile) := by
  rw [classifyChanges, read]
  rfl

/-- A section acts on the path it is judged by, unless it deletes and names both
paths. -/
theorem op_path_eq_primary {file : FilePatch} {op : FileOp} (chosen : fileOp file = some op)
    (plain : file.isDeletedFile = true → file.newPath = none) : op.path = primaryPath file := by
  unfold fileOp at chosen
  unfold primaryPath
  split at chosen
  · rename_i deleted
    obtain ⟨path, found, rfl⟩ := Option.map_eq_some_iff.mp chosen
    simp [plain deleted, found, FileOp.path]
  · split at chosen
    · obtain ⟨path, found, rfl⟩ := Option.map_eq_some_iff.mp chosen
      simp [found, FileOp.path]
    · obtain ⟨path, found, rfl⟩ := Option.map_eq_some_iff.mp chosen
      simp [found, FileOp.path]

/-- **Judged paths.** A patch acts only on paths the policy is asked about
exactly when its deletions name such paths: no other kind of section can differ. -/
theorem acts_on_judged_paths_iff (diffContent : Text) :
    ActsOnJudgedPaths diffContent ↔ DeletesJudgedPaths diffContent := by
  constructor
  · intro judged parsed read file member deleted old new hasOld hasNew
    have chosen : fileOp file = some (.delete old) := by simp [fileOp, deleted, hasOld]
    obtain ⟨change, listed, equal⟩ :=
      judged parsed _ read (classifyChanges_eq read) file member _ chosen
    obtain ⟨other, present, rfl⟩ := List.mem_map.mp listed
    exact ⟨other, present, equal⟩
  · intro deletions parsed changes read classified file member op chosen
    rw [classifyChanges_eq read] at classified
    cases classified
    have listed (judged : FilePatch) (present : judged ∈ parsed.files) :
        classifyFile judged ∈ parsed.files.map classifyFile := List.mem_map_of_mem present
    by_cases both : file.isDeletedFile = true ∧ file.newPath.isSome = true
    · obtain ⟨deleted, hasNew⟩ := both
      obtain ⟨new, hasNew⟩ := Option.isSome_iff_exists.mp hasNew
      simp only [fileOp, deleted, ↓reduceIte, Option.map_eq_some_iff] at chosen
      obtain ⟨old, hasOld, rfl⟩ := chosen
      obtain ⟨judged, present, equal⟩ := deletions parsed read file member deleted old new hasOld hasNew
      exact ⟨classifyFile judged, listed judged present, equal⟩
    · have plain : file.isDeletedFile = true → file.newPath = none := by simpa using both
      refine ⟨classifyFile file, listed file member, ?_⟩
      rw [op_path_eq_primary chosen plain]
      exact same_refl _

/-- A section that is judged by one path and deletes another. -/
def disguisedDeletion : Text :=
  unlines ["--- a/secret".toList, "+++ b/harmless".toList, "deleted file mode 100644".toList]

/-- A directory `/w` with one file in it. -/
def secretDisk : Disk where
  tree := Files.put (Files.put (fun _ => none) ["w".toList] (some .dir))
    ["w".toList, "secret".toList] (some (.file (.utf8 "x\n".toList)))
  cwd := []
  touched := []

/-- The policy is asked about `harmless` alone, and `secret` is removed. -/
theorem disguised_deletion_bypasses_policy :
    ¬ ActsOnJudgedPaths disguisedDeletion ∧
      (classifyChanges disguisedDeletion).map (·.map (·.filePath)) = .ok [⟨"harmless".toList⟩] ∧
      (applyPatch ⟨⟨"/w".toList⟩, false⟩ disguisedDeletion secretDisk).1.isOk = true ∧
      (applyPatch ⟨⟨"/w".toList⟩, false⟩ disguisedDeletion secretDisk).2.touched =
        [["w".toList, "secret".toList]] := by
  refine ⟨?_, by decide +kernel, by decide +kernel, by decide +kernel⟩
  intro judged
  have read : PatchParser.fromDiff disguisedDeletion = .ok ⟨[⟨some ⟨"secret".toList⟩,
      some ⟨"harmless".toList⟩, [], false, true, none, none, false, false, false⟩]⟩ := by
    decide +kernel
  obtain ⟨change, listed, equal⟩ := judged _ _ read (classifyChanges_eq read) _ List.mem_cons_self
    (.delete ⟨"secret".toList⟩) rfl
  cases List.mem_singleton.mp listed
  exact absurd equal (by decide)

end PatchTargets

end Devit
