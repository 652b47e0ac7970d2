import Devit.AtomicWrite
import Devit.PatchTargets
import Devit.Library.Directories

/-! What applying one section does to the disk, and how a whole patch is a run of
sections. The checks before the first section only look. -/
namespace Devit
open Text Path FileSystem
open Files (Later entry)

namespace PatchSections
open AtomicPatcher AtomicWrite

/-! ## The parts of a section -/

/-- The parent directories a new file is given. -/
def makeParents (fullPath : PathBuf) : Action DevItError Disk Unit :=
  match parent fullPath with
  | none => pure ()
  | some above => orIo "create parent directories" above (createDirAll above)

/-- The lines a section is applied to, and whether the last one ends in a newline. -/
def currentLines (d : Disk) (fullPath : PathBuf) : DevItResult (List Text × Bool) :=
  if pathExists d fullPath then
    match readToString d fullPath with
    | .error e => .error (.io "read file".toList (some fullPath) e)
    | .ok raw => .ok (lines raw, raw.getLast? = some '\n')
  else .ok ([], true)

/-- The text a section gives a new file. -/
def createdText (hunks : List PatchHunk) (noTrailingNewline : Bool) : DevItResult Text :=
  buildNewContent hunks [] (!noTrailingNewline)

/-- The text a section gives a file that it modifies. -/
def modifiedText (d : Disk) (fullPath : PathBuf) (hunks : List PatchHunk)
    (noTrailingNewline : Bool) : DevItResult Text := do
  let (originalLines, hadTrailingNewline) ← currentLines d fullPath
  buildNewContent hunks originalLines (if noTrailingNewline then false else hadTrailingNewline)

theorem createAt_eq {p : AtomicPatcher} (live : p.dryRun = false) (path : PathBuf)
    (hunks : List PatchHunk) (noTrailingNewline : Bool) (stats : PatchStats) :
    createAt p path hunks noTrailingNewline stats =
      makeParents (pathJoin p.workingDir path) >>= fun _ =>
      Action.lift (createdText hunks noTrailingNewline) >>= fun content =>
      writeFileAtomically (pathJoin p.workingDir path) content >>= fun _ =>
      pure (updateStatsFromHunks hunks { stats with filesCreated := stats.filesCreated + 1 }) := by
  unfold createAt makeParents
  simp only [live, ↓reduceIte]
  cases parent (pathJoin p.workingDir path) with
  | none => rfl
  | some above => rfl

theorem modifyAt_eq {p : AtomicPatcher} (live : p.dryRun = false) (path : PathBuf)
    (hunks : List PatchHunk) (noTrailingNewline : Bool) (stats : PatchStats) (d : Disk) :
    modifyAt p path hunks noTrailingNewline stats d =
      (Action.lift (modifiedText d (pathJoin p.workingDir path) hunks noTrailingNewline) >>=
        fun content => writeFileAtomically (pathJoin p.workingDir path) content >>= fun _ =>
        pure (updateStatsFromHunks hunks
          { stats with filesModified := stats.filesModified + 1 })) d := by
  unfold modifyAt modifiedText currentLines
  simp only [live, ↓reduceIte, Action.bind_apply, Action.read_apply, Action.lift_apply]
  cases pathExists d (pathJoin p.workingDir path) with
  | false => rfl
  | true =>
    simp only [↓reduceIte, readFileLines, Action.bind_apply, orIo]
    cases readToString d (pathJoin p.workingDir path) with
    | error e => rfl
    | ok raw => rfl

theorem deleteAt_eq {p : AtomicPatcher} (live : p.dryRun = false) (path : PathBuf)
    (stats : PatchStats) (d : Disk) :
    deleteAt p path stats d =
      if pathExists d (pathJoin p.workingDir path) then
        (orIo "delete file" (pathJoin p.workingDir path)
          (removeFile (pathJoin p.workingDir path)) >>= fun _ =>
          pure { stats with filesDeleted := stats.filesDeleted + 1 }) d
      else (.ok { stats with filesDeleted := stats.filesDeleted + 1 }, d) := by
  unfold deleteAt
  simp only [live, Action.bind_apply, Action.read_apply, true_and]
  cases pathExists d (pathJoin p.workingDir path) with
  | false => rfl
  | true => rfl

/-! ## Parent directories -/

/-- The directory that is to hold the file is there, or the file is to be in the
current one. -/
def ParentThere (d : Disk) (fullPath : PathBuf) : Prop :=
  ∀ above, parent fullPath = some above → above.text = [] ∨ isDir d above = true

theorem orIo_error {α : Type} {operation : String} {path : PathBuf}
    {call : Action Files.Errno Disk α} {d d' : Disk} {e : DevItError}
    (failed : orIo operation path call d = (.error e, d')) : e.isIo = true := by
  unfold orIo at failed
  split at failed <;> cases failed
  rfl

theorem orIo_snd {α : Type} (operation : String) (path : PathBuf)
    (call : Action Files.Errno Disk α) (d : Disk) :
    (orIo operation path call d).2 = (call d).2 := by
  unfold orIo
  split <;> rename_i ran <;> rw [ran]

theorem orIo_ok {α : Type} {operation : String} {path : PathBuf}
    {call : Action Files.Errno Disk α} {d d' : Disk} {a : α}
    (ran : orIo operation path call d = (.ok a, d')) : call d = (.ok a, d') := by
  unfold orIo at ran
  split at ran
  · rename_i inner
    cases ran
    exact inner
  · cases ran

theorem makeParents_widens {d : Disk} (sound : d.Sound) (fullPath : PathBuf) :
    Widened d (makeParents fullPath d).2 := by
  unfold makeParents
  cases parent fullPath with
  | none => exact .refl d
  | some above =>
    dsimp only
    rw [orIo_snd]
    exact createDirAllWithin_widens sound

theorem makeParents_error {d d' : Disk} {fullPath : PathBuf} {e : DevItError}
    (failed : makeParents fullPath d = (.error e, d')) : e.isIo = true := by
  unfold makeParents at failed
  cases above : parent fullPath with
  | none => simp [above] at failed
  | some above' =>
    simp only [above] at failed
    exact orIo_error failed

/-- No directory is made exactly when the one needed is there. -/
theorem makeParents_unchanged_iff {d : Disk} (sound : d.Sound) (fullPath : PathBuf) :
    makeParents fullPath d = (.ok (), d) ↔ ParentThere d fullPath := by
  unfold makeParents ParentThere
  cases parent fullPath with
  | none => simp
  | some above =>
    simp only [Option.some.injEq, forall_eq']
    constructor
    · intro ran
      exact isDir_of_createDirAll sound (orIo_ok ran)
    · rintro (empty | there)
      · refine orIo_of_ok ?_
        rw [createDirAll, createDirAllWithin]
        simp only [empty, ↓reduceIte]
      · exact orIo_of_ok (createDirAll_there sound there)

/-! ## Sections and runs -/

section
variable {p : AtomicPatcher} {d : Disk}

theorem write_keeps (sound : d.Sound) (fullPath : PathBuf) (content : Text) :
    Action.Keeps (fun d' => Later d d') (writeFileAtomically fullPath content) :=
  fun _ later => later.trans (write_later (later.sound sound) fullPath content)

theorem removeFile_keeps (path : PathBuf) :
    Action.Keeps (fun d' => Later d d') (orIo "delete file" path (removeFile path)) := by
  intro d' later
  rw [orIo_snd]
  rcases unlink_at_cases path d' with ⟨e, failed⟩ | ⟨loc, -, notDir, removed⟩
  · rw [failed]
    exact later
  · rw [removed]
    exact later.trans (Later.put _ notDir)

theorem createAt_keeps (live : p.dryRun = false) (sound : d.Sound) (path : PathBuf)
    (hunks : List PatchHunk) (noTrailingNewline : Bool) (stats : PatchStats) :
    Action.Keeps (fun d' => Later d d') (createAt p path hunks noTrailingNewline stats) := by
  rw [createAt_eq live]
  refine Action.keeps_bind (fun d' later => ?_) fun _ => ?_
  · exact later.trans (makeParents_widens (later.sound sound) _).later
  · exact Action.keeps_bind (Action.keeps_lift _) fun content =>
      Action.keeps_bind (write_keeps sound _ content) fun _ => Action.keeps_pure _

theorem modifyAt_keeps (live : p.dryRun = false) (sound : d.Sound) (path : PathBuf)
    (hunks : List PatchHunk) (noTrailingNewline : Bool) (stats : PatchStats) :
    Action.Keeps (fun d' => Later d d') (modifyAt p path hunks noTrailingNewline stats) := by
  intro d' later
  rw [modifyAt_eq live]
  exact Action.keeps_bind (Action.keeps_lift _) (fun content =>
    Action.keeps_bind (write_keeps sound _ content) fun _ => Action.keeps_pure _) d' later

theorem deleteAt_keeps (live : p.dryRun = false) (path : PathBuf) (stats : PatchStats) :
    Action.Keeps (fun d' => Later d d') (deleteAt p path stats) := by
  intro d' later
  rw [deleteAt_eq live]
  split
  · exact Action.keeps_bind (removeFile_keeps _) (fun _ => Action.keeps_pure _) d' later
  · exact later

/-- No section removes or replaces a directory. -/
theorem section_keeps (live : p.dryRun = false) (sound : d.Sound) (stats : PatchStats)
    (file : FilePatch) : Action.Keeps (fun d' => Later d d') (applyFilePatch p stats file) := by
  cases chosen : fileOp file with
  | none =>
    intro d' later
    obtain ⟨reason, refused⟩ := applyFilePatch_no_op chosen p stats d'
    rw [refused]
    exact later
  | some op =>
    rw [applyFilePatch_eq_perform chosen]
    cases op with
    | delete path => exact deleteAt_keeps live path stats
    | create path => exact createAt_keeps live sound path _ _ stats
    | modify path => exact modifyAt_keeps live sound path _ _ stats

end

/-- Sections applied one after the other. -/
def runSections (p : AtomicPatcher) (files : List FilePatch) : Action DevItError Disk PatchStats :=
  Action.forEach (applyFilePatch p) PatchStats.zero files

theorem runSections_later {p : AtomicPatcher} (live : p.dryRun = false) {d : Disk}
    (sound : d.Sound) (files : List FilePatch) : Later d (runSections p files d).2 := by
  have keeps : Action.Keeps (fun d' => Later d d') (runSections p files) :=
    Action.keeps_forEach (fun stats file _ => section_keeps live sound stats file) PatchStats.zero
  exact keeps d (Later.refl d)

/-- The checks before the first section change nothing. -/
theorem validateSecurity_snd (p : AtomicPatcher) (parsed : ParsedPatch) (d : Disk) :
    (validateSecurity p parsed d).2 = d := by
  have looks : ∀ path, (validatePath p path d).2 = d := by
    intro path
    unfold validatePath
    dsimp only
    split
    · rfl
    · split
      · rfl
      · split
        · split <;> rfl
        · rfl
  have keeps : Action.Keeps (fun d' => d' = d) (validateSecurity p parsed) := by
    refine Action.keeps_forEach (fun _ path _ d' same => ?_) ()
    subst same
    exact looks path
  exact keeps d rfl

/-- A patch is refused with nothing changed, or its sections are run. -/
theorem applyPatch_cases (p : AtomicPatcher) (patchContent : Text) (d : Disk) :
    (∃ e, applyPatch p patchContent d = (.error e, d) ∧
      ∀ parsed, PatchParser.fromDiff patchContent = .ok parsed →
        validateSecurity p parsed d = (.error e, d)) ∨
    ∃ parsed, PatchParser.fromDiff patchContent = .ok parsed ∧
      validateSecurity p parsed d = (.ok (), d) ∧
      applyPatch p patchContent d = runSections p parsed.files d := by
  unfold applyPatch
  rw [Action.bind_apply, Action.lift_apply]
  cases read : PatchParser.fromDiff patchContent with
  | error e => exact .inl ⟨e, rfl, fun _ bad => by cases bad⟩
  | ok parsed =>
    have looked := validateSecurity_snd p parsed d
    dsimp only
    rw [Action.bind_apply]
    cases ran : validateSecurity p parsed d with
    | mk outcome d' =>
      rw [ran] at looked
      subst looked
      cases outcome with
      | error e =>
        refine .inl ⟨e, rfl, fun other same => ?_⟩
        cases same
        exact ran
      | ok _ => exact .inr ⟨parsed, rfl, ran, rfl⟩

end PatchSections

end Devit
