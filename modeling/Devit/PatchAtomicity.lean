import Devit.PatchSections

/-! When a patch is all or nothing. The patcher applies the sections of a patch
one after the other and never goes back: what the sections before a refused one
did stays, and so do the parent directories made for a file whose hunks are then
refused. A patch that succeeds has done what every section says, unless a link
stood at the temporary name of a file that was written. -/
namespace Devit
open Text Path FileSystem
open Files (Later entry)

namespace PatchAtomicity
open AtomicPatcher AtomicWrite PatchSections

variable {p : AtomicPatcher} {d : Disk}

/-- The section was applied to the disk and did what it says: the file is gone, or
the entry its path leads to is a file with the text the hunks give. -/
def SectionTook (p : AtomicPatcher) (file : FilePatch) (d d' : Disk) : Prop :=
  match fileOp file with
  | none => False
  | some (.delete path) => pathExists d' (pathJoin p.workingDir path) = false
  | some (.create path) =>
    ∃ text place, createdText file.hunks file.noTrailingNewline = .ok text ∧
      lookup (makeParents (pathJoin p.workingDir path) d).2 false (pathJoin p.workingDir path) =
        .ok place ∧
      entry d'.tree place.loc = some (.file (.utf8 text))
  | some (.modify path) =>
    ∃ text place, modifiedText d (pathJoin p.workingDir path) file.hunks file.noTrailingNewline =
        .ok text ∧
      lookup d false (pathJoin p.workingDir path) = .ok place ∧
      entry d'.tree place.loc = some (.file (.utf8 text))

/-- No link stands at the temporary name when the section writes its file. -/
def TempFree (p : AtomicPatcher) (file : FilePatch) (d : Disk) : Prop :=
  match fileOp file with
  | some (.create path) => ∀ target,
      stat (makeParents (pathJoin p.workingDir path) d).2 false
        (tempPath (pathJoin p.workingDir path)) ≠ .ok (.link target)
  | some (.modify path) => ∀ target,
      stat d false (tempPath (pathJoin p.workingDir path)) ≠ .ok (.link target)
  | _ => True

/-- A section that creates a file finds the directory for it. -/
def ParentsReady (p : AtomicPatcher) (file : FilePatch) (d : Disk) : Prop :=
  match fileOp file with
  | some (.create path) => ParentThere d (pathJoin p.workingDir path)
  | _ => True

/-! ## One section -/

/-- A section that succeeds did what it says exactly when it wrote through no link. -/
theorem section_took_iff (live : p.dryRun = false) (sound : d.Sound) {stats stats' : PatchStats}
    {file : FilePatch} {d' : Disk} (ran : applyFilePatch p stats file d = (.ok stats', d')) :
    SectionTook p file d d' ↔ TempFree p file d := by
  cases chosen : fileOp file with
  | none =>
    obtain ⟨reason, refused⟩ := applyFilePatch_no_op chosen p stats d
    rw [refused] at ran
    cases ran
  | some op =>
    rw [applyFilePatch_eq_perform chosen] at ran
    unfold SectionTook TempFree
    rw [chosen]
    cases op with
    | delete path =>
      simp only [iff_true]
      simp only [perform, deleteAt_eq live] at ran
      split at ran
      · obtain ⟨_, mid, removed, done⟩ := Action.bind_eq_ok ran
        cases done
        exact pathExists_removed sound (orIo_ok removed)
      · rename_i absent
        cases ran
        simpa using absent
    | create path =>
      simp only [perform, createAt_eq live] at ran
      obtain ⟨_, ready, made, ran⟩ := Action.bind_eq_ok ran
      obtain ⟨text, mid, built, ran⟩ := Action.bind_eq_ok ran
      obtain ⟨_, after, wrote, done⟩ := Action.bind_eq_ok ran
      simp only [Action.lift_apply, Prod.mk.injEq] at built
      obtain ⟨built, rfl⟩ := built
      cases done
      have widened := makeParents_widens sound (pathJoin p.workingDir path)
      rw [made] at widened
      have took := write_took_iff (widened.later.sound sound) wrote
      simp only [made, built, Except.ok.injEq, exists_and_left, exists_eq_left']
      exact took
    | modify path =>
      simp only [perform, modifyAt_eq live] at ran
      obtain ⟨text, mid, built, ran⟩ := Action.bind_eq_ok ran
      obtain ⟨_, after, wrote, done⟩ := Action.bind_eq_ok ran
      simp only [Action.lift_apply, Prod.mk.injEq] at built
      obtain ⟨built, rfl⟩ := built
      cases done
      have took := write_took_iff sound wrote
      simp only [built, Except.ok.injEq, exists_and_left, exists_eq_left']
      exact took

/-- A section that is refused left at most the parent directories of a new file. -/
theorem section_refused (live : p.dryRun = false) (sound : d.Sound) {stats : PatchStats}
    {file : FilePatch} {d' : Disk} {e : DevItError}
    (ran : applyFilePatch p stats file d = (.error e, d')) (notIo : e.isIo = false) :
    (∃ path, fileOp file = some (.create path) ∧
      makeParents (pathJoin p.workingDir path) d = (.ok (), d')) ∨
    (∀ path, fileOp file ≠ some (.create path)) ∧ d' = d := by
  cases chosen : fileOp file with
  | none =>
    obtain ⟨reason, refused⟩ := applyFilePatch_no_op chosen p stats d
    rw [refused] at ran
    cases ran
    exact .inr ⟨by simp, rfl⟩
  | some op =>
    rw [applyFilePatch_eq_perform chosen] at ran
    cases op with
    | delete path =>
      refine .inr ⟨by simp, ?_⟩
      simp only [perform, deleteAt_eq live] at ran
      split at ran
      · rcases Action.bind_eq_error ran with failed | ⟨_, _, -, done⟩
        · rw [orIo_error failed] at notIo
          cases notIo
        · cases done
      · cases ran
    | create path =>
      refine .inl ⟨path, rfl, ?_⟩
      simp only [perform, createAt_eq live] at ran
      rcases Action.bind_eq_error ran with failed | ⟨_, ready, made, ran⟩
      · rw [makeParents_error failed] at notIo
        cases notIo
      · rcases Action.bind_eq_error ran with failed | ⟨text, mid, built, ran⟩
        · simp only [Action.lift_apply, Prod.mk.injEq] at failed
          rw [made, failed.2]
        · have soundMid : mid.Sound := by
            have widened := makeParents_widens sound (pathJoin p.workingDir path)
            rw [made] at widened
            simp only [Action.lift_apply, Prod.mk.injEq] at built
            rw [← built.2]
            exact widened.later.sound sound
          rcases Action.bind_eq_error ran with failed | ⟨_, _, -, done⟩
          · rw [write_error_io soundMid failed] at notIo
            cases notIo
          · cases done
    | modify path =>
      refine .inr ⟨by simp, ?_⟩
      simp only [perform, modifyAt_eq live] at ran
      rcases Action.bind_eq_error ran with failed | ⟨text, mid, built, ran⟩
      · simp only [Action.lift_apply, Prod.mk.injEq] at failed
        exact failed.2.symm
      · simp only [Action.lift_apply, Prod.mk.injEq] at built
        rw [← built.2] at ran
        rcases Action.bind_eq_error ran with failed | ⟨_, _, -, done⟩
        · rw [write_error_io sound failed] at notIo
          cases notIo
        · cases done

/-- After a refused section the tree is the first one exactly when the sections
before left it so and no directory had to be made. Directories never go away, so
one that was made cannot have been there. -/
theorem refused_unchanged_iff (live : p.dryRun = false) (sound : d.Sound) {first d' : Disk}
    (later : Later first d) {stats : PatchStats} {file : FilePatch} {e : DevItError}
    (ran : applyFilePatch p stats file d = (.error e, d')) (notIo : e.isIo = false) :
    d'.tree = first.tree ↔ d.tree = first.tree ∧ ParentsReady p file d := by
  rcases section_refused live sound ran notIo with ⟨path, chosen, made⟩ | ⟨other, rfl⟩
  · simp only [ParentsReady, chosen]
    rw [← makeParents_unchanged_iff sound]
    have widened := makeParents_widens sound (pathJoin p.workingDir path)
    rw [made] at widened
    constructor
    · intro same
      rcases widened.unchanged_or_made with rfl | ⟨loc, free, isDir⟩
      · exact ⟨same, made⟩
      · have before : entry first.tree loc = some .dir := by
          unfold entry at isDir ⊢
          rw [← same]
          exact isDir
        rw [later.dirs loc before] at free
        cases free
    · rintro ⟨same, unmade⟩
      rw [made] at unmade
      cases unmade
      exact same
  · have ready : ParentsReady p file d' := by
      unfold ParentsReady
      split
      · rename_i path chosen
        exact absurd chosen (other path)
      · trivial
    simp [ready]

/-! ## Whole patches -/

/-- The run comes to a section with these statistics and this disk. -/
def Reached (p : AtomicPatcher) (files : List FilePatch) (d : Disk) (stats : PatchStats)
    (file : FilePatch) (s : Disk) : Prop :=
  ∃ done rest, files = done ++ file :: rest ∧ runSections p done d = (.ok stats, s)

/-- What is asked of a patch: refused, it leaves the tree alone; accepted, every
section did what it says. Failures of the file system are apart. -/
structure AllOrNothing (p : AtomicPatcher) (patchContent : Text) (d : Disk) : Prop where
  refused : ∀ e d', applyPatch p patchContent d = (.error e, d') → e.isIo = false →
    d'.tree = d.tree
  accepted : ∀ stats d', applyPatch p patchContent d = (.ok stats, d') →
    ∀ parsed, PatchParser.fromDiff patchContent = .ok parsed →
    ∀ done file rest, parsed.files = done ++ file :: rest →
      ∃ before s after s', runSections p done d = (.ok before, s) ∧
        applyFilePatch p before file s = (.ok after, s') ∧ SectionTook p file s s'

/-- When it holds: a section that is refused comes first to change anything, and
needs no directory made; and, in a patch whose sections are all applied, no link
stands at a temporary name. -/
structure ChangesLast (p : AtomicPatcher) (patchContent : Text) (d : Disk) : Prop where
  refused : ∀ parsed, PatchParser.fromDiff patchContent = .ok parsed →
    (validateSecurity p parsed d).1 = .ok () → ∀ stats file s, Reached p parsed.files d stats file s →
    ∀ e s', applyFilePatch p stats file s = (.error e, s') → e.isIo = false →
      s.tree = d.tree ∧ ParentsReady p file s
  accepted : ∀ stats d', applyPatch p patchContent d = (.ok stats, d') →
    ∀ parsed, PatchParser.fromDiff patchContent = .ok parsed →
    ∀ before file s, Reached p parsed.files d before file s → TempFree p file s

theorem reached_later (live : p.dryRun = false) (sound : d.Sound) {files : List FilePatch}
    {stats : PatchStats} {file : FilePatch} {s : Disk} (reached : Reached p files d stats file s) :
    Later d s := by
  obtain ⟨done, rest, -, ran⟩ := reached
  have later := runSections_later live sound done
  rwa [ran] at later

/-- A run that comes to a section goes on with it. -/
theorem runSections_reached {files rest done : List FilePatch} {stats : PatchStats}
    {file : FilePatch} {s : Disk} (shape : files = done ++ file :: rest)
    (ran : runSections p done d = (.ok stats, s)) :
    runSections p files d = (applyFilePatch p stats file >>= fun next =>
      Action.forEach (applyFilePatch p) next rest) s := by
  subst shape
  rw [runSections, Action.forEach_append]
  exact Action.bind_of_ok ran

/-- A run that succeeds came to every section and applied it. -/
theorem runSections_ok {files done rest : List FilePatch} {file : FilePatch} {stats : PatchStats}
    {d' : Disk} (ran : runSections p files d = (.ok stats, d'))
    (shape : files = done ++ file :: rest) :
    ∃ before s after s', runSections p done d = (.ok before, s) ∧
      applyFilePatch p before file s = (.ok after, s') := by
  subst shape
  rw [runSections, Action.forEach_append] at ran
  obtain ⟨before, s, first, ran⟩ := Action.bind_eq_ok ran
  obtain ⟨after, s', here, -⟩ := Action.bind_eq_ok ran
  exact ⟨before, s, after, s', first, here⟩

/-- **All or nothing.** A patch is all or nothing exactly when it changes nothing
before the section that is refused, or is accepted and writes through no link. -/
theorem all_or_nothing_iff (live : p.dryRun = false) (sound : d.Sound) (patchContent : Text) :
    AllOrNothing p patchContent d ↔ ChangesLast p patchContent d := by
  constructor
  · intro holds
    constructor
    · intro parsed read checked stats file s reached e s' failed notIo
      obtain ⟨done, rest, shape, ran⟩ := reached
      have later := reached_later live sound ⟨done, rest, shape, ran⟩
      rcases applyPatch_cases p patchContent d with ⟨e', -, refused⟩ | ⟨other, same, -, whole⟩
      · rw [refused parsed read] at checked
        cases checked
      · rw [read] at same
        cases same
        have ends : applyPatch p patchContent d = (.error e, s') := by
          rw [whole, runSections_reached shape ran]
          exact Action.bind_of_error failed
        exact (refused_unchanged_iff live (later.sound sound) later failed notIo).mp
          (holds.refused e s' ends notIo)
    · intro stats d' ran parsed read before file s reached
      obtain ⟨done, rest, shape, first⟩ := reached
      obtain ⟨before', s', after, s'', first', here, took⟩ :=
        holds.accepted stats d' ran parsed read done file rest shape
      rw [first] at first'
      cases first'
      have later := reached_later live sound ⟨done, rest, shape, first⟩
      exact (section_took_iff live (later.sound sound) here).mp took
  · intro condition
    constructor
    · intro e d' ran notIo
      rcases applyPatch_cases p patchContent d with ⟨e', refused, -⟩ | ⟨parsed, read, checked, whole⟩
      · rw [refused] at ran
        cases ran
        rfl
      · rw [whole] at ran
        obtain ⟨done, file, rest, stats, s, shape, first, failed⟩ := Action.forEach_eq_error ran
        have reached : Reached p parsed.files d stats file s := ⟨done, rest, shape, first⟩
        have later := reached_later live sound reached
        exact (refused_unchanged_iff live (later.sound sound) later failed notIo).mpr
          (condition.refused parsed read (by rw [checked]) stats file s reached e d' failed notIo)
    · intro stats d' ran parsed read done file rest shape
      rcases applyPatch_cases p patchContent d with ⟨e', refused, -⟩ | ⟨other, same, -, whole⟩
      · rw [refused] at ran
        cases ran
      · rw [read] at same
        cases same
        have ran' := ran
        rw [whole] at ran'
        obtain ⟨before, s, after, s', first, here⟩ := runSections_ok ran' shape
        have reached : Reached p parsed.files d before file s := ⟨done, rest, shape, first⟩
        have later := reached_later live sound reached
        exact ⟨before, s, after, s', first, here,
          (section_took_iff live (later.sound sound) here).mpr
            (condition.accepted stats d' ran parsed read before file s reached)⟩

/-- A directory `/w` that holds the file `a.txt`. -/
def oneFileDisk : Disk where
  tree := Files.put (Files.put (fun _ => none) ["w".toList] (some .dir))
    ["w".toList, "a.txt".toList] (some (.file (.utf8 "x\n".toList)))
  cwd := []
  touched := []

theorem oneFileDisk_sound : oneFileDisk.Sound := Files.grounded_root _

/-- A section that creates a file, and one whose hunk is not what the file holds. -/
def createThenConflict : Text :=
  unlines ["--- /dev/null".toList, "+++ b/new.txt".toList, "@@ -0,0 +1 @@".toList, "+hi".toList,
    "--- a/a.txt".toList, "+++ b/a.txt".toList, "@@ -1 +1 @@".toList, "-y".toList, "+z".toList]

/-- The patch is refused for its second section, and the file of the first stays. -/
theorem refused_patch_leaves_new_file :
    ¬ AllOrNothing ⟨⟨"/w".toList⟩, false⟩ createThenConflict oneFileDisk ∧
      (applyPatch ⟨⟨"/w".toList⟩, false⟩ createThenConflict oneFileDisk).1 =
        .error (.vcsConflict "line 1".toList "remove_mismatch".toList []
          (some "Expected to remove: 'y', Found: 'x'".toList)) ∧
      oneFileDisk.tree ["w".toList, "new.txt".toList] = none ∧
      (applyPatch ⟨⟨"/w".toList⟩, false⟩ createThenConflict oneFileDisk).2.tree
        ["w".toList, "new.txt".toList] = some (.file (.utf8 "hi\n".toList)) := by
  have refusal : (applyPatch ⟨⟨"/w".toList⟩, false⟩ createThenConflict oneFileDisk).1 =
      .error (.vcsConflict "line 1".toList "remove_mismatch".toList []
        (some "Expected to remove: 'y', Found: 'x'".toList)) := by decide +kernel
  have before : oneFileDisk.tree ["w".toList, "new.txt".toList] = none := by decide +kernel
  have after : (applyPatch ⟨⟨"/w".toList⟩, false⟩ createThenConflict oneFileDisk).2.tree
      ["w".toList, "new.txt".toList] = some (.file (.utf8 "hi\n".toList)) := by decide +kernel
  refine ⟨fun holds => ?_, refusal, before, after⟩
  cases ran : applyPatch ⟨⟨"/w".toList⟩, false⟩ createThenConflict oneFileDisk with
  | mk outcome d' =>
    rw [ran] at refusal after
    have unchanged := holds.refused _ d' (ran.trans (congrArg (·, d') refusal)) rfl
    rw [unchanged, before] at after
    cases after

/-- One section that deletes the file. -/
def deleteOnly : Text :=
  unlines ["--- a/a.txt".toList, "+++ /dev/null".toList, "@@ -1 +0,0 @@".toList, "-x".toList]
/-- Its one section. -/
def deletion : FilePatch where
  oldPath := some ⟨"a.txt".toList⟩
  newPath := none
  hunks := [⟨1, 1, 0, 0, [.remove "x".toList], false⟩]
  isNewFile := false
  isDeletedFile := true
  oldMode := none
  newMode := none
  addsExecBit := false
  isBinary := false
  noTrailingNewline := false

theorem deleteOnly_all_or_nothing :
    AllOrNothing ⟨⟨"/w".toList⟩, false⟩ deleteOnly oneFileDisk := by
  have read : PatchParser.fromDiff deleteOnly = .ok ⟨[deletion]⟩ := by decide +kernel
  have only : ∀ stats other s, Reached ⟨⟨"/w".toList⟩, false⟩ [deletion] oneFileDisk stats other s →
      other = deletion ∧ s = oneFileDisk := by
    rintro stats other s ⟨done, rest, shape, ran⟩
    cases done with
    | nil =>
      have start : oneFileDisk = s := congrArg Prod.snd ran
      exact ⟨(List.cons.inj shape).1.symm, start.symm⟩
    | cons first done => simp at shape
  have op : fileOp deletion = some (.delete ⟨"a.txt".toList⟩) := rfl
  refine (all_or_nothing_iff rfl oneFileDisk_sound deleteOnly).mpr ⟨?_, ?_⟩
  · intro parsed same _ stats other s reached e s' _ _
    rw [read] at same
    cases same
    obtain ⟨rfl, rfl⟩ := only stats other s reached
    refine ⟨rfl, ?_⟩
    rw [ParentsReady, op]
    trivial
  · intro stats d' _ parsed same before other s reached
    rw [read] at same
    cases same
    obtain ⟨rfl, rfl⟩ := only before other s reached
    rw [TempFree, op]
    trivial

end PatchAtomicity

end Devit
