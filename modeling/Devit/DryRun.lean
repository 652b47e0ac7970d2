import Devit.Containment

/-! When a dry run foretells the real one. A dry run looks at every section against the
tree as it is; the real run meets what the sections before have made of it. So the two
differ only over sections that modify a file which an earlier one has changed. -/
namespace Devit
open Text Path FileSystem

namespace DryRun
open AtomicPatcher PatchSections PatchAtomicity Containment

/-- What a section that is applied adds to the statistics. -/
def statsAfter (stats : PatchStats) (file : FilePatch) : PatchStats :=
  match fileOp file with
  | none => stats
  | some (.delete _) => { stats with filesDeleted := stats.filesDeleted + 1 }
  | some (.create _) =>
    updateStatsFromHunks file.hunks { stats with filesCreated := stats.filesCreated + 1 }
  | some (.modify _) =>
    updateStatsFromHunks file.hunks { stats with filesModified := stats.filesModified + 1 }

/-- The section can be applied to the tree, as far as its hunks decide: it has a path, and
its hunks fit the lines that are there. -/
def Fits (workingDir : PathBuf) (file : FilePatch) (d : Disk) : Prop :=
  match fileOp file with
  | none => False
  | some (.delete _) => True
  | some (.create _) => ∃ text, createdText file.hunks file.noTrailingNewline = .ok text
  | some (.modify path) =>
    ∃ text, modifiedText d (pathJoin workingDir path) file.hunks file.noTrailingNewline = .ok text

variable {workingDir : PathBuf} {patchContent : Text} {d : Disk}

/-! ## One section -/

/-- A section that is applied fits, and is counted. -/
theorem section_live {stats stats' : PatchStats} {file : FilePatch} {d' : Disk}
    (ran : applyFilePatch ⟨workingDir, false⟩ stats file d = (.ok stats', d')) :
    Fits workingDir file d ∧ stats' = statsAfter stats file := by
  cases chosen : fileOp file with
  | none =>
    obtain ⟨reason, refused⟩ := applyFilePatch_no_op chosen ⟨workingDir, false⟩ stats d
    rw [refused] at ran
    cases ran
  | some op =>
    rw [applyFilePatch_eq_perform chosen] at ran
    unfold Fits statsAfter
    rw [chosen]
    cases op with
    | delete path =>
      rw [perform, deleteAt_eq rfl] at ran
      split at ran
      · obtain ⟨_, _, -, done⟩ := Action.bind_eq_ok ran
        cases done
        exact ⟨trivial, rfl⟩
      · cases ran
        exact ⟨trivial, rfl⟩
    | create path =>
      rw [perform, createAt_eq rfl] at ran
      obtain ⟨_, _, -, ran⟩ := Action.bind_eq_ok ran
      obtain ⟨text, _, built, ran⟩ := Action.bind_eq_ok ran
      obtain ⟨_, _, -, done⟩ := Action.bind_eq_ok ran
      cases done
      exact ⟨⟨text, congrArg Prod.fst built⟩, rfl⟩
    | modify path =>
      rw [perform, modifyAt_eq rfl] at ran
      obtain ⟨text, _, built, ran⟩ := Action.bind_eq_ok ran
      obtain ⟨_, _, -, done⟩ := Action.bind_eq_ok ran
      cases done
      exact ⟨⟨text, congrArg Prod.fst built⟩, rfl⟩

/-- A run that applies all sections has counted them. -/
theorem run_live_stats {files : List FilePatch} {acc stats : PatchStats} {d d' : Disk}
    (ran : Action.forEach (applyFilePatch ⟨workingDir, false⟩) acc files d = (.ok stats, d')) :
    stats = files.foldl statsAfter acc := by
  induction files generalizing acc d with
  | nil =>
    cases ran
    rfl
  | cons file files ih =>
    rw [Action.forEach_cons] at ran
    obtain ⟨next, mid, first, rest⟩ := Action.bind_eq_ok ran
    rw [(section_live first).2] at rest
    exact ih rest

end DryRun

end Devit
