import Devit.Library.LastSet
import Devit.Containment

/-! What a patch does to files that it is not about. A file is written under a temporary
name beside it, so whatever stood at that name is lost, and a link there leads the write
to the file at its end. -/
namespace Devit
open Text Path FileSystem
open Files hiding Place

namespace PatchFrame
open AtomicPatcher AtomicWrite PatchSections PatchAtomicity Containment

variable {p : AtomicPatcher} {d : Disk}

/-- The content of the regular file at a location. -/
def fileAt (d : Disk) (loc : Loc Text) : Option Content :=
  match entry d.tree loc with
  | some (.file content) => some content
  | _ => none

theorem fileAt_congr {d d' : Disk} {loc : Loc Text}
    (same : entry d'.tree loc = entry d.tree loc) : fileAt d' loc = fileAt d loc := by
  unfold fileAt
  rw [same]

theorem fileAt_widened {d d' : Disk} (widened : Widened d d') (loc : Loc Text) :
    fileAt d' loc = fileAt d loc := by
  rcases widened.entry loc with same | ⟨free, isDir⟩
  · exact fileAt_congr same
  · unfold fileAt
    rw [free, isDir]

/-! ## One write -/

/-- The disk on which a section finds its file: one that creates it has made the
directories above it first. -/
def prepared (p : AtomicPatcher) (file : FilePatch) (d : Disk) : Disk :=
  match fileOp file with
  | some (.create path) => (makeParents (pathJoin p.workingDir path) d).2
  | _ => d

/-- The section writes this text to the file. -/
def Writes (p : AtomicPatcher) (file : FilePatch) (d : Disk) (full : PathBuf) (text : Text) :
    Prop :=
  match fileOp file with
  | some (.create path) =>
    full = pathJoin p.workingDir path ∧ createdText file.hunks file.noTrailingNewline = .ok text
  | some (.modify path) =>
    full = pathJoin p.workingDir path ∧
      modifiedText d full file.hunks file.noTrailingNewline = .ok text
  | _ => False

/-- The section's own path leads to the location. -/
def Aims (p : AtomicPatcher) (file : FilePatch) (d : Disk) (loc : Loc Text) : Prop :=
  ∃ op place, fileOp file = some op ∧
    lookup (prepared p file d) false (pathJoin p.workingDir op.path) = .ok place ∧ place.loc = loc

/-- The write for a file leads through the location: nothing stays at the temporary name,
and the text stays where a link at that name leads. -/
inductive Passes (d : Disk) (full : PathBuf) (text : Text) (loc : Loc Text) :
    Option Content → Prop where
  | temp {place : Files.Place Text} (found : lookup d false (tempPath full) = .ok place)
      (at_loc : place.loc = loc) : Passes d full text loc none
  | linked {opened : Files.Place Text} (leads : lookup d true (tempPath full) = .ok opened)
      (at_loc : opened.loc = loc)
      (apart : ∀ place, lookup d false (tempPath full) = .ok place → place.loc ≠ loc) :
      Passes d full text loc (some (.utf8 text))

/-- What a section leaves at a location that its write leads through. -/
def Leaves (p : AtomicPatcher) (loc : Loc Text) (file : FilePatch) (d : Disk)
    (left : Option Content) : Prop :=
  ∃ full text, Writes p file d full text ∧ Passes (prepared p file d) full text loc left

/-- **One write.** Away from the file itself, a write leaves what it leads through as said,
and all else alone. -/
theorem write_passes {full : PathBuf} {text : Text} {d' : Disk} {loc : Loc Text}
    (sound : d.Sound) (ran : writeFileAtomically full text d = (.ok (), d'))
    (aside : ∀ place, lookup d false full = .ok place → place.loc ≠ loc) :
    (∀ left, Passes d full text loc left → fileAt d' loc = left) ∧
      ((∀ left, ¬ Passes d full text loc left) → fileAt d' loc = fileAt d loc) := by
  rcases write_cases sound full text with ⟨e, -, failed⟩ | ⟨opened, leads, notDir, outcome⟩
  · rw [failed] at ran
    cases ran
  · rcases outcome with
      ⟨e, -, failed⟩ | ⟨comps, name, dir, node, shape, asks, holds, there, other, free, done⟩
    · rw [failed] at ran
      cases ran
    · rw [done] at ran
      cases ran
      obtain ⟨temp, -, tempAsks⟩ := tempPath_spec shape
      have tempHolds := (holds_tempPath shape dir).mpr holds
      have atFull : lookup d false full = .ok (placeAt d.tree (dir ++ [name])) :=
        lookup_holds sound shape asks holds (by simp)
      have atTemp : lookup d false (tempPath full) =
          .ok (placeAt d.tree (dir ++ [tempName name])) :=
        lookup_holds sound temp tempAsks tempHolds (by simp)
      have target : loc ≠ dir ++ [name] := by
        have apart := aside _ atFull
        rw [placeAt_loc] at apart
        exact apart.symm
      have differ : dir ++ [name] ≠ dir ++ [tempName name] := by simpa using (tempName_ne name).symm
      have result : ∀ other, other ≠ dir ++ [name] →
          entry (moved (written d opened.loc text) (dir ++ [tempName name]) (dir ++ [name])
            node).tree other =
          entry ((written d opened.loc text).put (dir ++ [tempName name]) none).tree other := by
        intro other away
        rw [moved, if_neg differ, Disk.put, entry_put_other _ away]
      have atTempLoc : ∀ place, lookup d false (tempPath full) = .ok place →
          place.loc = dir ++ [tempName name] := by
        intro place found
        rw [atTemp] at found
        cases found
        exact placeAt_loc _ _
      by_cases here : loc = dir ++ [tempName name]
      · have gone : fileAt (moved (written d opened.loc text) (dir ++ [tempName name])
            (dir ++ [name]) node) loc = none := by
          have empty : entry ((written d opened.loc text).put (dir ++ [tempName name]) none).tree
              loc = none := by
            rw [here, Disk.put]
            exact entry_put_self _ (by simp)
          unfold fileAt
          rw [result loc target, empty]
        have passes : Passes d full text loc none := .temp atTemp (by rw [placeAt_loc, here])
        refine ⟨fun left passes => ?_, fun never => absurd passes (never none)⟩
        cases passes with
        | temp _ _ => exact gone
        | linked _ _ apart => exact absurd here.symm (by simpa [atTempLoc _ atTemp] using apart _ atTemp)
      · have kept : entry (moved (written d opened.loc text) (dir ++ [tempName name])
            (dir ++ [name]) node).tree loc = entry (written d opened.loc text).tree loc := by
          rw [result loc target, Disk.put, entry_put_other _ here]
        have notTemp : ∀ place, lookup d false (tempPath full) = .ok place → place.loc ≠ loc := by
          intro place found same
          rw [atTempLoc place found] at same
          exact here same.symm
        by_cases led : opened.loc = loc
        · have wrote : fileAt (moved (written d opened.loc text) (dir ++ [tempName name])
              (dir ++ [name]) node) loc = some (.utf8 text) := by
            unfold fileAt
            rw [kept, ← led, written_entry notDir]
          refine ⟨fun left passes => ?_, fun never => absurd (.linked leads led notTemp) (never _)⟩
          cases passes with
          | temp found at_loc => exact absurd at_loc (notTemp _ found)
          | linked _ _ _ => exact wrote
        · refine ⟨fun left passes => ?_, fun _ => ?_⟩
          · cases passes with
            | temp found at_loc => exact absurd at_loc (notTemp _ found)
            | linked leads' at_loc _ =>
              rw [leads] at leads'
              cases leads'
              exact absurd at_loc led
          · refine fileAt_congr ?_
            rw [kept]
            exact written_other fun same => led same.symm

/-! ## One section -/

theorem removed_aside {full : PathBuf} {d' : Disk} {loc : Loc Text}
    (ran : removeFile full d = (.ok (), d'))
    (aside : ∀ place, lookup d false full = .ok place → place.loc ≠ loc) :
    fileAt d' loc = fileAt d loc := by
  rcases unlink_at_cases full d with ⟨e, failed⟩ | ⟨gone, leads, -, removed⟩
  · rw [failed] at ran
    cases ran
  · rw [removed] at ran
    cases ran
    have apart : loc ≠ gone := (aside _ leads).symm
    exact fileAt_congr (by rw [Disk.put, entry_put_other _ apart])

theorem leaves_iff {file : FilePatch} {full : PathBuf} {text : Text} {loc : Loc Text}
    (only : ∀ path content, Writes p file d path content ↔ path = full ∧ content = text)
    (left : Option Content) :
    Leaves p loc file d left ↔ Passes (prepared p file d) full text loc left := by
  simp only [Leaves, only, and_assoc, exists_and_left, exists_eq_left]

/-- **One section.** Away from its own file, a section leaves what its write leads through
as said, and all else alone. -/
theorem section_leaves {stats stats' : PatchStats} {file : FilePatch} {d' : Disk}
    {loc : Loc Text} (live : p.dryRun = false) (sound : d.Sound)
    (ran : applyFilePatch p stats file d = (.ok stats', d')) (aside : ¬ Aims p file d loc) :
    (∀ left, Leaves p loc file d left → fileAt d' loc = left) ∧
      ((∀ left, ¬ Leaves p loc file d left) → fileAt d' loc = fileAt d loc) := by
  cases chosen : fileOp file with
  | none =>
    obtain ⟨reason, refused⟩ := applyFilePatch_no_op chosen p stats d
    rw [refused] at ran
    cases ran
  | some op =>
    rw [applyFilePatch_eq_perform chosen] at ran
    have away : ∀ place, lookup (prepared p file d) false (pathJoin p.workingDir op.path) =
        .ok place → place.loc ≠ loc :=
      fun place leads same => aside ⟨op, place, chosen, leads, same⟩
    cases op with
    | delete path =>
      have silent : ∀ left, ¬ Leaves p loc file d left := by
        rintro left ⟨full, text, writes, -⟩
        rw [Writes, chosen] at writes
        exact writes
      refine ⟨fun left leaves => absurd leaves (silent left), fun _ => ?_⟩
      rw [perform, deleteAt_eq live] at ran
      rw [prepared, chosen] at away
      split at ran
      · obtain ⟨_, mid, removed, done⟩ := Action.bind_eq_ok ran
        cases done
        exact removed_aside (orIo_ok removed) away
      · cases ran
        rfl
    | create path =>
      rw [perform, createAt_eq live] at ran
      obtain ⟨_, ready, made, ran⟩ := Action.bind_eq_ok ran
      obtain ⟨text, mid, built, ran⟩ := Action.bind_eq_ok ran
      obtain ⟨_, after, wrote, done⟩ := Action.bind_eq_ok ran
      simp only [Action.lift_apply, Prod.mk.injEq] at built
      obtain ⟨built, rfl⟩ := built
      cases done
      have widened := makeParents_widens sound (pathJoin p.workingDir path)
      rw [made] at widened
      have start : prepared p file d = ready := by
        rw [prepared, chosen]
        exact congrArg Prod.snd made
      rw [start] at away
      have passes := write_passes (widened.later.sound sound) wrote away
      have only : ∀ full content, Writes p file d full content ↔
          full = pathJoin p.workingDir path ∧ content = text := by
        intro full content
        simp [Writes, chosen, built, eq_comm]
      simp only [leaves_iff only, start]
      rw [← fileAt_widened widened]
      exact passes
    | modify path =>
      rw [perform, modifyAt_eq live] at ran
      obtain ⟨text, mid, built, ran⟩ := Action.bind_eq_ok ran
      obtain ⟨_, after, wrote, done⟩ := Action.bind_eq_ok ran
      simp only [Action.lift_apply, Prod.mk.injEq] at built
      obtain ⟨built, rfl⟩ := built
      cases done
      have start : prepared p file d = d := by rw [prepared, chosen]
      rw [start] at away
      have only : ∀ full content, Writes p file d full content ↔
          full = pathJoin p.workingDir path ∧ content = text := by
        intro full content
        rw [Writes, chosen]
        refine and_congr_right fun same => ?_
        rw [same, built, Except.ok.injEq, eq_comm]
      simp only [leaves_iff only, start]
      exact write_passes sound wrote away

/-! ## Whole patches -/

/-- Some section that the run comes to is about the file at the location. -/
def Target (p : AtomicPatcher) (files : List FilePatch) (d : Disk) (loc : Loc Text) : Prop :=
  ∃ stats file s, Reached p files d stats file s ∧ Aims p file s loc

/-- A patch that is applied leaves the files that it is not about as they were, and makes
no others. -/
def Framed (p : AtomicPatcher) (patchContent : Text) (d : Disk) : Prop :=
  ∀ stats d', applyPatch p patchContent d = (.ok stats, d') →
    ∀ parsed, PatchParser.fromDiff patchContent = .ok parsed →
    ∀ loc, ¬ Target p parsed.files d loc → fileAt d' loc = fileAt d loc

/-- When it does: at a location that no section is about, the last section whose write
leads through it leaves what was there at first. -/
def LeavesAsFound (p : AtomicPatcher) (patchContent : Text) (d : Disk) : Prop :=
  ∀ stats d', applyPatch p patchContent d = (.ok stats, d') →
    ∀ parsed, PatchParser.fromDiff patchContent = .ok parsed →
    ∀ loc, ¬ Target p parsed.files d loc →
    ∀ left, Action.LastSet (applyFilePatch p) (Leaves p loc) PatchStats.zero parsed.files d left →
      left = fileAt d loc

theorem observed_fileAt (live : p.dryRun = false) (sound : d.Sound) {files : List FilePatch}
    {loc : Loc Text} (aside : ¬ Target p files d loc) :
    Action.Observed (fileAt · loc) (applyFilePatch p) (Leaves p loc) PatchStats.zero files d := by
  intro done file rest stats s next s' shape ran here
  have reached : Reached p files d stats file s := ⟨done, rest, shape, ran⟩
  have later := reached_later live sound reached
  refine section_leaves live (later.sound sound) here ?_
  intro aims
  exact aside ⟨stats, file, s, reached, aims⟩

/-- **Frame.** A patch leaves the files alone that it is not about exactly when, unless it
is a dry run, the writes that lead through such a file leave what was there. -/
theorem framed_iff (sound : d.Sound) (patchContent : Text) :
    Framed p patchContent d ↔ (p.dryRun = false → LeavesAsFound p patchContent d) := by
  cases dry : p.dryRun with
  | true =>
    refine ⟨fun _ live => absurd live (by decide), fun _ => ?_⟩
    intro stats d' ran parsed _ loc _
    have unchanged := dry_run_unchanged dry patchContent d
    rw [ran] at unchanged
    dsimp only at unchanged
    rw [unchanged]
  | false =>
    simp only [forall_const]
    unfold Framed LeavesAsFound
    refine forall_congr' fun stats => forall_congr' fun d' => forall_congr' fun ran =>
      forall_congr' fun parsed => forall_congr' fun read => forall_congr' fun loc =>
      forall_congr' fun aside => ?_
    rcases applyPatch_cases p patchContent d with ⟨e, refused, -⟩ | ⟨other, read', -, whole⟩
    · rw [refused] at ran
      cases ran
    · rw [read] at read'
      cases read'
      rw [whole] at ran
      exact Action.forEach_kept_iff (observed_fileAt dry sound aside) ran

/-- A section that replaces the line of the file. -/
def replaceLine : Text :=
  unlines ["--- a/a.txt".toList, "+++ b/a.txt".toList, "@@ -1 +1 @@".toList, "-x".toList,
    "+y".toList]

/-- Its one section. -/
def replacement : FilePatch where
  oldPath := some ⟨"a.txt".toList⟩
  newPath := some ⟨"a.txt".toList⟩
  hunks := [⟨1, 1, 1, 1, [.remove "x".toList, .add "y".toList], false⟩]
  isNewFile := false
  isDeletedFile := false
  oldMode := none
  newMode := none
  addsExecBit := false
  isBinary := false
  noTrailingNewline := false

theorem replaceLine_read : PatchParser.fromDiff replaceLine = .ok ⟨[replacement]⟩ := by
  decide +kernel

/-- With nothing at the temporary name, only the file changes. -/
theorem replaceLine_framed : Framed ⟨⟨"/w".toList⟩, false⟩ replaceLine oneFileDisk := by
  refine (framed_iff oneFileDisk_sound replaceLine).mpr fun _ => ?_
  intro stats d' _ parsed read loc _ left last
  rw [replaceLine_read] at read
  cases read
  cases last with
  | later _ rest => cases rest
  | here puts _ _ =>
    obtain ⟨full, text, ⟨rfl, -⟩, passes⟩ := puts
    have start : prepared ⟨⟨"/w".toList⟩, false⟩ replacement oneFileDisk = oneFileDisk := rfl
    have beside : ∀ follow, lookup oneFileDisk follow (tempPath (pathJoin ⟨"/w".toList⟩
        ⟨"a.txt".toList⟩)) = .ok (.vacant ["w".toList, "a.devit.tmp".toList]) := by
      decide +kernel
    rw [start] at passes
    cases passes with
    | temp found at_loc =>
      cases (beside false).symm.trans found
      rw [← at_loc]
      decide +kernel
    | linked leads at_loc apart =>
      cases (beside true).symm.trans leads
      exact absurd at_loc (apart _ (beside false))

/-- The same directory, with another file at the temporary name of the first. -/
def siblingDisk : Disk where
  tree := Files.put oneFileDisk.tree ["w".toList, "a.devit.tmp".toList]
    (some (.file (.utf8 "keep\n".toList)))
  cwd := []
  touched := []

/-- The file beside the one that is patched is gone. -/
theorem replaceLine_takes_sibling :
    siblingDisk.Sound ∧ ¬ Framed ⟨⟨"/w".toList⟩, false⟩ replaceLine siblingDisk ∧
      (applyPatch ⟨⟨"/w".toList⟩, false⟩ replaceLine siblingDisk).1.isOk = true ∧
      fileAt siblingDisk ["w".toList, "a.devit.tmp".toList] = some (.utf8 "keep\n".toList) ∧
      fileAt (applyPatch ⟨⟨"/w".toList⟩, false⟩ replaceLine siblingDisk).2
        ["w".toList, "a.devit.tmp".toList] = none := by
  have before : fileAt siblingDisk ["w".toList, "a.devit.tmp".toList] =
      some (.utf8 "keep\n".toList) := by decide +kernel
  have after : fileAt (applyPatch ⟨⟨"/w".toList⟩, false⟩ replaceLine siblingDisk).2
      ["w".toList, "a.devit.tmp".toList] = none := by decide +kernel
  have succeeds : (applyPatch ⟨⟨"/w".toList⟩, false⟩ replaceLine siblingDisk).1.isOk = true := by
    decide +kernel
  have aside : ¬ Target ⟨⟨"/w".toList⟩, false⟩ [replacement] siblingDisk
      ["w".toList, "a.devit.tmp".toList] := by
    rintro ⟨stats, file, s, ⟨done, rest, shape, ran⟩, op, place, chosen, leads, at_loc⟩
    cases done with
    | cons first done => simp at shape
    | nil =>
      cases ran
      cases shape
      cases chosen
      have own : lookup siblingDisk false (pathJoin ⟨"/w".toList⟩ ⟨"a.txt".toList⟩) =
          .ok (.found ["w".toList, "a.txt".toList]) := by decide +kernel
      cases own.symm.trans leads
      exact absurd at_loc (by decide)
  refine ⟨Files.grounded_root _, fun framed => ?_, succeeds, before, after⟩
  cases ran : applyPatch ⟨⟨"/w".toList⟩, false⟩ replaceLine siblingDisk with
  | mk outcome d' =>
    rw [ran] at succeeds after
    cases outcome with
    | error e => cases succeeds
    | ok stats =>
      have kept := framed stats d' ran _ replaceLine_read _ aside
      rw [before] at kept
      rw [after] at kept
      cases kept

end PatchFrame

end Devit
