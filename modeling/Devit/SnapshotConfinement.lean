import Devit.Library.Footprint
import Devit.Library.Landing
import Devit.SnapshotFiles

/-! Which file an identifier names. The identifier is joined to the storage directory as the
client sends it: with `..` in it, or with a slash in front, it names files elsewhere. -/
namespace Devit
open Text Path FileSystem
open Files (Loc Place entry landing Direct Within)

namespace SnapshotConfinement
open SnapshotManager

/-- What is joined to the storage directory. -/
def fileNameOf (id : Text) : PathBuf :=
  ⟨if (stripSuffix ".json".toList id).isSome then id else id ++ ".json".toList⟩

variable {crates : SnapshotCrates} {manager : SnapshotManager} {d : Disk} {top loc : Loc Text}
  {id : Text} {content : Content} {follow : Bool} {place : Place Text}

theorem snapshotFilePath_joined :
    snapshotFilePath manager id = pathJoin manager.snapshotDir (fileNameOf id) := rfl

/-! ## What is read and removed -/

/-- The file that is opened for an identifier, with what it holds. -/
def fileRead (manager : SnapshotManager) (d : Disk) (id : Text) : Option (Loc Text × Content) :=
  match lookup d true (snapshotFilePath manager id) with
  | .error _ => none
  | .ok place => (fileAt d.tree place.loc).map fun content => (place.loc, content)

theorem fileRead_eq_some : fileRead manager d id = some (loc, content) ↔
    ∃ place, lookup d true (snapshotFilePath manager id) = .ok place ∧ place.loc = loc ∧
      entry d.tree loc = some (.file content) := by
  unfold fileRead
  cases leads : lookup d true (snapshotFilePath manager id) with
  | error e => simp
  | ok place =>
    simp only [Option.map_eq_some_iff, fileAt_eq_some, Prod.mk.injEq]
    constructor
    · rintro ⟨_, isFile, rfl, rfl⟩
      exact ⟨place, rfl, rfl, isFile⟩
    · rintro ⟨_, same, rfl, isFile⟩
      cases same
      exact ⟨content, isFile, rfl, rfl⟩

theorem stat_fileRead : stat d true (snapshotFilePath manager id) = .ok (.file content) ↔
    ∃ loc, fileRead manager d id = some (loc, content) := by
  constructor
  · intro isFile
    cases leads : lookup d true (snapshotFilePath manager id) with
    | error e =>
      rw [stat_eq, leads] at isFile
      cases isFile
    | ok place =>
      exact ⟨place.loc, fileRead_eq_some.mpr ⟨place, leads, rfl, (stat_eq_ok leads).mp isFile⟩⟩
  · rintro ⟨loc, read⟩
    obtain ⟨place, leads, rfl, isFile⟩ := fileRead_eq_some.mp read
    exact (stat_eq_ok leads).mpr isFile

/-- **Reading.** A snapshot is what serde makes of this file. -/
theorem getSnapshot_eq_ok {snapshot : Snapshot} :
    getSnapshot crates d manager id = .ok snapshot ↔
      ∃ loc content, fileRead manager d id = some (loc, content) ∧
        crates.parse content = .ok snapshot := by
  constructor
  · intro ran
    unfold getSnapshot at ran
    dsimp only at ran
    split at ran
    · cases ran
    · split at ran
      · cases ran
      · rename_i content isFile
        obtain ⟨loc, read⟩ := stat_fileRead.mp isFile
        split at ran
        · rename_i own parsed
          cases ran
          exact ⟨loc, content, read, parsed⟩
        · cases ran
      · cases ran
  · rintro ⟨loc, content, read, parsed⟩
    have isFile := stat_fileRead.mpr ⟨loc, read⟩
    have there : pathExists d (snapshotFilePath manager id) = true := by
      rw [pathExists, isFile]
      rfl
    simp only [getSnapshot, there, Bool.true_eq_false, if_false, isFile, parsed]

/-- `restore_snapshot` reads it through `get_snapshot`: where there is none, nothing is done. -/
theorem restoreSnapshot_unread {denied : Loc Text → Bool}
    (unread : fileRead manager d id = none) :
    ∃ e, restoreSnapshot crates denied manager id d = (.error e, d) := by
  unfold restoreSnapshot
  cases got : getSnapshot crates d manager id with
  | error e => exact ⟨e, rfl⟩
  | ok snapshot =>
    obtain ⟨loc, content, read, -⟩ := getSnapshot_eq_ok.mp got
    rw [unread] at read
    cases read

/-- **Removing.** What is removed is no directory, and it is there for a reader too. -/
theorem deleteSnapshot_cases (manager : SnapshotManager) (id : Text) (d : Disk) :
    (∃ e, deleteSnapshot manager id d = (.error e, d)) ∨
      ∃ loc, pathExists d (snapshotFilePath manager id) = true ∧
        lookup d false (snapshotFilePath manager id) = .ok (.found loc) ∧
        entry d.tree loc ≠ some .dir ∧ deleteSnapshot manager id d = (.ok (), d.put loc none) := by
  unfold deleteSnapshot
  dsimp only
  cases there : pathExists d (snapshotFilePath manager id) with
  | false => exact .inl ⟨_, rfl⟩
  | true =>
    rw [if_neg (by decide), osAt]
    rcases unlink_at_cases (snapshotFilePath manager id) d with
      ⟨e, failed⟩ | ⟨loc, leads, notDir, ran⟩
    · rw [show removeFile _ _ = _ from failed]
      exact .inl ⟨_, rfl⟩
    · rw [show removeFile _ _ = _ from ran]
      exact .inr ⟨loc, rfl, leads, notDir, rfl⟩

/-! ## Where the identifier leads -/

/-- Where its file name is taken from. -/
def origin (top : Loc Text) (id : Text) : Loc Text := if isAbsolute (fileNameOf id) then [] else top

/-- Where its file name leads, name by name. -/
def target (top : Loc Text) (id : Text) : Loc Text :=
  landing (origin top id) (hops (components (fileNameOf id)))

/-- No link stands on the way from there. -/
def Unlinked (d : Disk) (top : Loc Text) (id : Text) : Prop :=
  Direct d.tree (origin top id) (hops (components (fileNameOf id)))

theorem fileNameOf_ends (id : Text) : ∃ front, (fileNameOf id).text = front ++ ".json".toList := by
  unfold fileNameOf
  split
  · rename_i ended
    obtain ⟨front, stripped⟩ := Option.isSome_iff_exists.mp ended
    rw [stripSuffix, Option.map_eq_some_iff] at stripped
    obtain ⟨rest, stripped, rfl⟩ := stripped
    have shape := congrArg List.reverse (stripPrefix_eq_some stripped)
    rw [List.reverse_append, List.reverse_reverse, List.reverse_reverse] at shape
    exact ⟨rest.reverse, shape⟩
  · exact ⟨id, rfl⟩

/-- **What the path leads to** is where the identifier leads. -/
theorem lookup_target (sound : d.Sound) (filled : manager.snapshotDir.text ≠ [])
    (opens : Opens d manager.snapshotDir top) (unlinked : Unlinked d top id)
    (leads : lookup d follow (snapshotFilePath manager id) = .ok place) :
    place.loc = target top id := by
  obtain ⟨front, ends⟩ := fileNameOf_ends id
  have letter : 'j' ∈ (fileNameOf id).text := by
    rw [ends]
    exact List.mem_append_right _ (by decide)
  rw [snapshotFilePath_joined] at leads
  unfold Unlinked origin at unlinked
  unfold target origin
  cases root : isAbsolute (fileNameOf id) with
  | true =>
    rw [root, if_pos rfl] at unlinked
    rw [if_pos rfl]
    rw [pathJoin, if_pos root] at leads
    have start : base d (fileNameOf id) = [] := by rw [base, if_pos root]
    rw [← start] at unlinked ⊢
    exact lookup_direct (List.ne_nil_of_mem letter) unlinked leads
  | false =>
    rw [root, if_neg Bool.false_ne_true] at unlinked
    rw [if_neg Bool.false_ne_true]
    exact lookup_joined sound filled opens root (hops_ne_nil letter (by decide) (by decide))
      unlinked leads

/-! ## What stays in the store -/

/-- What the calls read or remove for the identifier lies in the store. -/
def Confined (manager : SnapshotManager) (d : Disk) (top : Loc Text) (id : Text) : Prop :=
  (∀ loc content, fileRead manager d id = some (loc, content) → top <+: loc) ∧
    Within top d (deleteSnapshot manager id d).2

/-- What is there for a reader is a directory, or the file that is read. -/
theorem read_of_exists (sound : d.Sound) {place : Place Text}
    (there : pathExists d (snapshotFilePath manager id) = true)
    (leads : lookup d true (snapshotFilePath manager id) = .ok place)
    (notDir : entry d.tree place.loc ≠ some .dir) : fileRead manager d id ≠ none := by
  have noLink : ∀ target, entry d.tree place.loc ≠ some (.link target) := by
    have ends := leads
    unfold lookup at ends
    cases spelled : route (snapshotFilePath manager id) with
    | none => simp [spelled] at ends
    | some r => exact Files.resolve_follow sound (by simpa [spelled] using ends)
  intro none
  rw [fileRead, leads] at none
  dsimp only at none
  rw [Option.map_eq_none_iff, fileAt] at none
  cases held : entry d.tree place.loc with
  | none =>
    rw [pathExists, stat_eq, leads] at there
    simp [held, Except.isOk, Except.toBool] at there
  | some node =>
    rw [held] at none
    cases node with
    | file content => cases none
    | dir => exact notDir held
    | link target => exact noLink target held

/-- **Identifiers stay in the store** if and only if no file is where they lead, or they lead
there. -/
theorem confined_iff {path : PathBuf} {max : Nat} (sound : d.Sound)
    (opens : Opens d (SnapshotManager.create path max).snapshotDir top)
    (unlinked : Unlinked d top id) :
    Confined (SnapshotManager.create path max) d top id ↔
      fileRead (SnapshotManager.create path max) d id = none ∨ top <+: target top id := by
  have filled := SnapshotFiles.snapshotDir_filled path max
  constructor
  · rintro ⟨reads, -⟩
    cases read : fileRead (SnapshotManager.create path max) d id with
    | none => exact .inl rfl
    | some found =>
      obtain ⟨loc, content⟩ := found
      obtain ⟨place, leads, rfl, -⟩ := fileRead_eq_some.mp read
      refine .inr ?_
      rw [← lookup_target sound filled opens unlinked leads]
      exact reads _ _ read
  · intro stays
    constructor
    · intro loc content read
      obtain ⟨place, leads, rfl, -⟩ := fileRead_eq_some.mp read
      rw [read] at stays
      rw [lookup_target sound filled opens unlinked leads]
      exact stays.resolve_left nofun
    · rcases deleteSnapshot_cases (SnapshotManager.create path max) id d with
        ⟨e, failed⟩ | ⟨loc, there, leads, notDir, ran⟩
      · rw [failed]
        exact .refl top d
      · rw [ran]
        refine (Files.within_put none).mpr ?_
        have landed := lookup_target sound filled opens unlinked leads
        rw [Place.loc] at landed
        rw [landed]
        refine stays.resolve_left ?_
        cases leads' : lookup d true (snapshotFilePath (SnapshotManager.create path max) id) with
        | error e =>
          rw [pathExists, stat_eq, leads'] at there
          cases there
        | ok place =>
          have landed' := lookup_target sound filled opens unlinked leads'
          refine read_of_exists sound there leads' ?_
          rw [landed', ← landed]
          exact notDir

/-! ## A file beside the store -/

def keyStore : SnapshotManager := SnapshotManager.create ⟨"/s".toList⟩ 10

def keyTop : Loc Text := ["s".toList, ".devit".toList, "snapshots".toList]

/-- A store with one snapshot, and a file next to it. -/
def keyDisk : Disk :=
  (((((⟨fun _ => none, [], []⟩ : Disk).put ["s".toList] (some .dir)).put
    ["s".toList, ".devit".toList] (some .dir)).put keyTop (some .dir)).put
    (keyTop ++ ["snap-1.json".toList]) (some (.file (.utf8 "null".toList)))).put
    ["s".toList, "key.json".toList] (some (.file (.utf8 "null".toList)))

theorem keyDisk_opens : Opens keyDisk keyStore.snapshotDir keyTop := by
  have sound : keyDisk.Sound := Files.grounded_root _
  exact (opens_iff sound (by decide +kernel)).mpr ⟨by decide +kernel, by decide +kernel⟩

/-- The identifier of a stored snapshot stays in the store. -/
theorem snapshot_file_confined : Confined keyStore keyDisk keyTop "snap-1".toList := by
  have sound : keyDisk.Sound := Files.grounded_root _
  refine (confined_iff sound keyDisk_opens ?_).mpr (.inr (by decide +kernel))
  have step : hops (components (fileNameOf "snap-1".toList)) = [.into "snap-1.json".toList] := by
    decide +kernel
  have start : origin keyTop "snap-1".toList = keyTop := by decide +kernel
  have isFile : entry keyDisk.tree (keyTop ++ ["snap-1.json".toList]) =
      some (.file (.utf8 "null".toList)) := by decide +kernel
  rw [Unlinked, step, start]
  refine ⟨fun target => ?_, trivial⟩
  rw [isFile]
  exact nofun

/-- With `..` or with a slash in front, an identifier reads the file next to the store, and
removes it. -/
theorem key_file_removed :
    fileRead keyStore keyDisk "../../key".toList =
        some (["s".toList, "key.json".toList], .utf8 "null".toList) ∧
      fileRead keyStore keyDisk "/s/key".toList =
        some (["s".toList, "key.json".toList], .utf8 "null".toList) ∧
      (SnapshotManager.deleteSnapshot keyStore "../../key".toList keyDisk).1 = .ok () ∧
      pathExists (SnapshotManager.deleteSnapshot keyStore "../../key".toList keyDisk).2
        ⟨"/s/key.json".toList⟩ = false ∧
      ¬ Confined keyStore keyDisk keyTop "../../key".toList := by
  have read : fileRead keyStore keyDisk "../../key".toList =
      some (["s".toList, "key.json".toList], .utf8 "null".toList) := by decide +kernel
  refine ⟨read, by decide +kernel, by decide +kernel, by decide +kernel, ?_⟩
  rintro ⟨reads, -⟩
  exact absurd (reads _ _ read) (by decide +kernel)

end SnapshotConfinement

end Devit
