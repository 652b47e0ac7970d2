import Devit.FileExploration
import Devit.Library.Shelf
import Devit.Snapshot

/-! The directory in which snapshots are stored, one file each under its identifier: how a
snapshot is made and written, listed, deleted, and how old ones are removed. What serde writes
and reads, and what the system lists of a directory, is given from outside. -/
namespace Devit
open Text Path FileSystem
open Files (Errno entry openTruncate writeAll)

/-- A snapshot with the time that is stored with it. -/
structure DatedSnapshot extends Snapshot where
  /-- Nanoseconds of the system's time. -/
  createdAt : Nat

/-- What the store takes from outside besides: serde's writing of a snapshot, and the
`created_at` that it reads. -/
structure StoreCrates extends SnapshotCrates where
  serialize : DatedSnapshot → Except Text Content
  readCreatedAt : Content → Nat

structure SnapshotInfo where
  id : Text
  createdAt : Nat
  description : Text
  fileCount : Nat
  sizeBytes : Nat
  rootPath : PathBuf
  deriving DecidableEq, Repr

/-- One call of `create_snapshot`, with the second and the time that the clock shows. -/
structure Creation where
  rootPath : PathBuf
  description : Text
  options : Option SnapshotOptions
  timestamp : Nat
  createdAt : Nat

/-- What the system lists of a disk, or why it does not. -/
abbrev Listing := (d : Disk) → Except Errno (Catalog d)

/-- `SnapshotOptions::default`. -/
def SnapshotOptions.standard : SnapshotOptions :=
  ⟨false, none, [".git".toList, "target".toList], false, false⟩

def generateSnapshotId (blake3 : List UInt8 → List UInt8) (timestamp : Nat)
    (suffix : Option Text) : Text :=
  let hash := hexEncode
    ((blake3 (textBytes (printNat timestamp) ++ (suffix.map textBytes).getD [])).take 8)
  "snap-".toList ++ printNat timestamp ++ '-' :: hash

/-- A call whose failure is reported with the operation and the path. -/
def osAt {α : Type} (operation : String) (path : PathBuf) (call : Action Errno Disk α) :
    Action SnapshotError Disk α := fun d =>
  match call d with
  | (.ok a, d') => (.ok a, d')
  | (.error e, d') => (.error (.io operation.toList path (.os e)), d')

namespace SnapshotManager

def ensureStorageDir (manager : SnapshotManager) : Action SnapshotError Disk Unit := fun d =>
  if pathExists d manager.snapshotDir then (.ok (), d)
  else osAt "create snapshot directory" manager.snapshotDir (createDirAll manager.snapshotDir) d

/-- The directory of a snapshot's file, made if it is not there. -/
def ensureParent (path : PathBuf) : Action SnapshotError Disk Unit := fun d =>
  match parent path with
  | none => (.ok (), d)
  | some above =>
    if pathExists d above then (.ok (), d)
    else osAt "create snapshot directory" above (createDirAll above) d

def writeSnapshotFile (manager : SnapshotManager) (snapshotId : Text) (contents : Content) :
    Action SnapshotError Disk Unit := do
  let path := snapshotFilePath manager snapshotId
  ensureParent path
  let tmpPath := withExtension path "json.tmp".toList
  let tmpFile ← osAt "create snapshot temp file" tmpPath (atPath tmpPath (openTruncate (.utf8 [])))
  osAt "write snapshot temp file" tmpPath (writeAll tmpFile contents)
  osAt "persist snapshot file" path (renameFile tmpPath path)

section
variable (crates : StoreCrates) (listing : Listing) (manager : SnapshotManager)

/-- The names of the store's entries. -/
def readEntries (d : Disk) : Except Errno (List Text) :=
  match listing d, lookup d true manager.snapshotDir with
  | .error e, _ => .error e
  | _, .error e => .error e
  | .ok catalog, .ok place =>
    match entry d.tree place.loc with
    | some .dir => .ok (catalog.names place.loc)
    | some _ => .error .notDirectory
    | none => .error .notFound

/-- What is shown of a file of the store; entries that are no snapshot files are passed over. -/
def storedInfo (d : Disk) (name : Text) : Except SnapshotError (Option SnapshotInfo) :=
  let path := pathJoin manager.snapshotDir ⟨name⟩
  match stat d true path with
  | .ok (.file content) =>
    if extension path ≠ some "json".toList then .ok none
    else
      match crates.parse content with
      | .error message =>
        .error (.internal "snapshot".toList ("failed to read snapshot metadata from ".toList ++
          path.text ++ ": ".toList ++ message))
      | .ok snapshot =>
        .ok (some ⟨snapshot.id, crates.readCreatedAt content, snapshot.description,
          snapshot.files.entries.length, snapshot.totalSize, snapshot.rootPath⟩)
  | _ => .ok none

/-- `sort_by_key` of the time of creation. -/
def byCreation (infos : List SnapshotInfo) : List SnapshotInfo :=
  infos.mergeSort fun a b => decide (a.createdAt ≤ b.createdAt)

def listSnapshots (d : Disk) : Except SnapshotError (List SnapshotInfo) :=
  if pathExists d manager.snapshotDir = false then .ok []
  else
    match readEntries listing manager d with
    | .error e => .error (.io "read snapshot dir".toList manager.snapshotDir (.os e))
    | .ok names =>
      match names.mapM (storedInfo crates manager d) with
      | .error e => .error e
      | .ok infos => .ok (byCreation (infos.filterMap id))

def deleteSnapshot (snapshotId : Text) : Action SnapshotError Disk Unit := fun d =>
  let path := snapshotFilePath manager snapshotId
  if pathExists d path = false then
    (.error (.snapshotRequired "snapshot_delete".toList
      ("Snapshot ".toList ++ snapshotId ++ " must exist to delete".toList)), d)
  else osAt "delete snapshot" path (removeFile path) d

/-- `cleanup_old_snapshots`: how many are deleted. -/
def cleanupOldSnapshots : Action SnapshotError Disk Nat := fun d =>
  if manager.maxSnapshots = 0 then (.ok 0, d)
  else
    match listSnapshots crates listing manager d with
    | .error e => (.error e, d)
    | .ok snapshots =>
      if snapshots.length ≤ manager.maxSnapshots then (.ok 0, d)
      else
        let toRemove := snapshots.length - manager.maxSnapshots
        Action.forEach (fun deleted info => do
          deleteSnapshot manager info.id
          pure (deleted + 1)) 0 ((byCreation snapshots).take toRemove) d

/-- The snapshot that a call captures, with its hash and its time. -/
def capture (creation : Creation) (d : Disk) : Except SnapshotError DatedSnapshot :=
  match Snapshot.create crates.toSnapshotCrates d
      (generateSnapshotId crates.blake3 creation.timestamp (some creation.description))
      creation.rootPath creation.description (creation.options.getD .standard) with
  | .error e => .error e
  | .ok snapshot =>
    .ok ⟨{ snapshot with integrityHash := computeIntegrityHash crates.toSnapshotCrates snapshot },
      creation.createdAt⟩

def serialized (snapshot : DatedSnapshot) : Except SnapshotError Content :=
  match crates.serialize snapshot with
  | .ok content => .ok content
  | .error message =>
    .error (.internal "snapshot".toList ("failed to serialize snapshot ".toList ++ snapshot.id ++
      ": ".toList ++ message))

def createSnapshot (creation : Creation) : Action SnapshotError Disk Text := do
  ensureStorageDir manager
  let snapshot ← fun d => (capture crates creation d, d)
  let contents ← Action.lift (serialized crates snapshot)
  writeSnapshotFile manager snapshot.id contents
  if manager.maxSnapshots > 0 then
    let _ ← cleanupOldSnapshots crates listing manager
  pure snapshot.id

end

end SnapshotManager

end Devit
