import Mathlib.Data.List.Lex
import Devit.CoreEngine
import Devit.Library.Json

/-! Snapshots of a directory: how its files are captured, how a snapshot is checked,
compared and restored. Hashing, compression, walking a directory and reading a
stored snapshot back come from crates. Permission bits are left out: which files
may not be written is given from outside. -/
namespace Devit
open Text Path FileSystem
open Files (Loc entry)

/-- Why a call on a file fails. -/
inductive IoFailure where
  | os (e : Files.Errno)
  | permissionDenied
  /-- Bytes that zlib cannot read. -/
  | corrupt
  deriving DecidableEq, Repr

/-- `DevItError`, as far as snapshots raise it. -/
inductive SnapshotError where
  | io (operation : Text) (path : PathBuf) (source : IoFailure)
  | snapshotStale (snapshotId stalenessReason : Text)
  | snapshotRequired (operation expected : Text)
  | internal (component message : Text)
  deriving DecidableEq, Repr

/-- How file content is stored in a snapshot. -/
inductive ContentStorage where
  | inline (content : Content)
  | external (path : PathBuf)
  | compressed (content : Content)
  | deduplicated (referenceHash : Text)
  deriving DecidableEq, Repr

structure SnapshotFile where
  path : PathBuf
  contentHash : Text
  size : Nat
  isBinary : Bool
  storage : ContentStorage
  deriving DecidableEq, Repr

/-- `HashMap<PathBuf, SnapshotFile>`, in the order in which it is iterated. Keys are
compared as paths are. -/
structure FileMap where
  entries : List (PathBuf × SnapshotFile)
  distinct : (entries.map fun e => components e.1).Nodup

namespace FileMap

def empty : FileMap := ⟨[], List.nodup_nil⟩

def keys (files : FileMap) : List PathBuf := files.entries.map (·.1)

def get (files : FileMap) (path : PathBuf) : Option SnapshotFile :=
  (files.entries.find? fun e => same e.1 path).map (·.2)

theorem distinct_replace (entries : List (PathBuf × SnapshotFile)) (path : PathBuf)
    (file : SnapshotFile) :
    ((entries.map fun e => if same e.1 path then (e.1, file) else e).map fun e => components e.1) =
      entries.map fun e => components e.1 := by
  rw [List.map_map]
  refine List.map_congr_left fun e _ => ?_
  simp only [Function.comp_apply]
  split <;> rfl

/-- `HashMap::insert`: a key that is there is kept. -/
def insert (files : FileMap) (path : PathBuf) (file : SnapshotFile) : FileMap :=
  if there : ∃ e ∈ files.entries, components e.1 = components path then
    ⟨files.entries.map fun e => if same e.1 path then (e.1, file) else e, by
      rw [distinct_replace]
      exact files.distinct⟩
  else
    ⟨files.entries ++ [(path, file)], by
      rw [List.map_append, List.nodup_append]
      refine ⟨files.distinct, List.nodup_singleton _, ?_⟩
      rintro comps inside other last rfl
      obtain ⟨e, member, shape⟩ := List.mem_map.mp inside
      exact there ⟨e, member, shape.trans (List.mem_singleton.mp last)⟩⟩

/-- A file of the map is found under its key. -/
theorem get_of_mem {files : FileMap} {e : PathBuf × SnapshotFile} (member : e ∈ files.entries) :
    files.get e.1 = some e.2 := by
  obtain ⟨entries, distinct⟩ := files
  simp only [get] at member ⊢
  induction entries with
  | nil => cases member
  | cons first entries ih =>
    rw [List.map_cons, List.nodup_cons] at distinct
    rcases List.mem_cons.mp member with rfl | later
    · simp [same]
    · have apart : same first.1 e.1 = false := by
        rw [same, beq_eq_false_iff_ne]
        intro equal
        exact distinct.1 (List.mem_map.mpr ⟨e, later, equal.symm⟩)
      rw [List.find?_cons_of_neg (by simp [apart])]
      exact ih distinct.2 later

end FileMap

/-- A snapshot, as far as it is checked and restored. -/
structure Snapshot where
  id : Text
  description : Text
  rootPath : PathBuf
  files : FileMap
  integrityHash : Text
  totalSize : Nat

/-- What snapshots take from outside: BLAKE3, zlib, WalkDir and serde. A walk lists what is
no directory below a path, each by the names that lead to it from there. -/
structure SnapshotCrates where
  blake3 : List UInt8 → List UInt8
  deflate : Content → Content
  inflate : Content → Option Content
  walkDir : Disk → Bool → PathBuf → List (List Text)
  parse : Content → Except Text Snapshot

structure SnapshotOptions where
  includeBinaryFiles : Bool
  maxFileSize : Option Nat
  excludePatterns : List Text
  compressContents : Bool
  followSymlinks : Bool
  deriving DecidableEq, Repr

structure RestoreOptions where
  overwriteExisting : Bool
  createDirectories : Bool
  dryRun : Bool
  backupExisting : Bool
  deriving DecidableEq, Repr

inductive FileDifference where
  | missing (path : PathBuf)
  | added (path : PathBuf)
  | modified (path : PathBuf) (snapshotHash currentHash : Text)
  deriving DecidableEq, Repr

/-! ## Bytes and hashes -/

def textBytes (s : Text) : List UInt8 := s.flatMap String.utf8EncodeChar

def contentBytes : Content → List UInt8
  | .utf8 text => textBytes text
  | .raw bytes => bytes

/-- `hex::encode`. -/
def hexEncode (bytes : List UInt8) : Text :=
  bytes.flatMap fun b => [Json.hexDigit (b.toNat / 16), Json.hexDigit (b.toNat % 16)]

/-- `u64::to_le_bytes`. -/
def leBytes (n : Nat) : List UInt8 := (List.range 8).map fun i => UInt8.ofNat (n / 256 ^ i)

/-- `char::is_ascii_hexdigit`. -/
def isAsciiHexdigit (c : Char) : Bool :=
  c.isDigit || ('a' ≤ c && c ≤ 'f') || ('A' ≤ c && c ≤ 'F')

/-- What paths are ordered by: their components, names behind all others. -/
def componentRank : Component → List Nat
  | .rootDir => [0]
  | .curDir => [1]
  | .parentDir => [2]
  | .normal name => 3 :: name.map Char.toNat

/-- `Ord for Path`. -/
def pathLe (p q : PathBuf) : Bool :=
  decide ((components p).map componentRank ≤ (components q).map componentRank)

section
variable (crates : SnapshotCrates)

def contentHash (content : Content) : Text := hexEncode (crates.blake3 (contentBytes content))

/-! ## Capturing -/

/-- The path WalkDir gives the entry with these names below the root. -/
def entryPath (rootPath : PathBuf) (names : List Text) : PathBuf :=
  names.foldl (fun path name => pathJoin path ⟨name⟩) rootPath

/-- Whether a pattern is in the path of the entry or of a directory above it, the
root included: such a directory is not entered. -/
def excluded (options : SnapshotOptions) (rootPath : PathBuf) (names : List Text) : Bool :=
  names.inits.any fun above =>
    options.excludePatterns.any fun pattern => contains pattern (entryPath rootPath above).text

/-- Whether a file is over the size limit. -/
def tooLarge (options : SnapshotOptions) (content : Content) : Bool :=
  match options.maxFileSize with
  | none => false
  | some maxSize => decide (maxSize < (contentBytes content).length)

/-- A null byte among the first ones. -/
def isBinary (content : Content) : Bool := ((contentBytes content).take 8192).any (· == 0)

/-- The file of a snapshot for a path and what was read there. -/
def snapshotFile (options : SnapshotOptions) (relativePath : PathBuf) (content : Content) :
    SnapshotFile where
  path := relativePath
  contentHash := contentHash crates content
  size := (contentBytes content).length
  isBinary := isBinary content
  storage :=
    if options.compressContents && !isBinary content then .compressed (crates.deflate content)
    else .inline content

/-- One entry of the walk, with the files captured so far. -/
def captureEntry (d : Disk) (options : SnapshotOptions) (rootPath : PathBuf) (acc : FileMap × Nat)
    (names : List Text) : Except SnapshotError (FileMap × Nat) :=
  if excluded options rootPath names then .ok acc
  else
    let filePath := entryPath rootPath names
    match stat d true filePath with
    | .error e => .error (.io "get metadata".toList filePath (.os e))
    | .ok (.file content) =>
      if tooLarge options content then .ok acc
      else if isBinary content && !options.includeBinaryFiles then .ok acc
      else
        let relativePath := (pathStripPrefix filePath rootPath).getD filePath
        .ok (acc.1.insert relativePath (snapshotFile crates options relativePath content),
          acc.2 + (contentBytes content).length)
    -- a directory that a link leads to is opened like a file
    | .ok _ => .error (.io "read file".toList filePath (.os .isDirectory))

/-- `Snapshot::create`; the identifier is made of the time and random bytes. -/
def Snapshot.create (d : Disk) (id : Text) (rootPath : PathBuf) (description : Text)
    (options : SnapshotOptions) : Except SnapshotError Snapshot :=
  match stat d true rootPath with
  | .error e => .error (.io "walk directory".toList rootPath (.os e))
  | .ok _ => do
    let captured ← (crates.walkDir d options.followSymlinks rootPath).foldlM
      (captureEntry crates d options rootPath) (FileMap.empty, 0)
    .ok ⟨id, description, rootPath, captured.1, [], captured.2⟩

/-! ## Checking -/

/-- `i64`, as `str::parse` reads it. -/
def parsesI64 (s : Text) : Bool :=
  match s with
  | '-' :: digits => digits != [] && (readDigits 10 (2 ^ 63) 0 digits).isSome
  | _ => (parseUnsigned 10 (2 ^ 63 - 1) s).isSome

/-- `validate_snapshot_id`. -/
def validSnapshotId (id : Text) : Bool :=
  match stripPrefix "snap-".toList id with
  | none => false
  | some content =>
    (content.length == 32 && content.all isAsciiHexdigit) ||
      match splitOn (· == '-') content with
      | timestamp :: hash :: _ =>
        parsesI64 timestamp && PathSecurityContext.byteLength hash == 16
      | _ => false

/-- The checks of one file of a snapshot. -/
def checkFile (d : Disk) (id : Text) (path : PathBuf) (file : SnapshotFile) :
    Except SnapshotError Unit :=
  if file.contentHash = [] then
    .error (.snapshotStale id ("File ".toList ++ path.text ++ " has empty hash".toList))
  else if file.contentHash.all isAsciiHexdigit = false then
    .error (.snapshotStale id ("File ".toList ++ path.text ++ " has invalid hash format".toList))
  else
    match file.storage with
    | .external extPath =>
      if pathExists d extPath then .ok ()
      else .error (.snapshotStale id ("External storage missing for ".toList ++ path.text))
    | .deduplicated referenceHash =>
      if referenceHash = [] then
        .error (.snapshotStale id ("Invalid dedup reference for ".toList ++ path.text))
      else .ok ()
    | _ => .ok ()

def Snapshot.validate (snapshot : Snapshot) (d : Disk) : Except SnapshotError Unit :=
  if validSnapshotId snapshot.id then
    snapshot.files.entries.forM fun e => checkFile d snapshot.id e.1 e.2
  else .error (.internal "snapshot".toList "Invalid snapshot ID format".toList)

/-- `SnapshotManager::compute_integrity_hash`. -/
def computeIntegrityHash (snapshot : Snapshot) : Text :=
  let entries := snapshot.files.entries.mergeSort fun a b => pathLe a.1 b.1
  hexEncode ((crates.blake3 (textBytes snapshot.id ++ textBytes snapshot.description ++
    entries.flatMap fun e =>
      textBytes e.1.text ++ textBytes e.2.contentHash ++ leBytes e.2.size)).take 16)

/-! ## Comparing -/

/-- One path that is compared. -/
def comparePath (snapshot : Snapshot) (d : Disk) (relPath : PathBuf) :
    Except SnapshotError (List FileDifference) :=
  let currentPath := pathJoin snapshot.rootPath relPath
  match snapshot.files.get relPath with
  | some file =>
    if pathExists d currentPath = false then .ok [.missing relPath]
    else
      match stat d true currentPath with
      | .error e => .error (.io "read file for comparison".toList currentPath (.os e))
      | .ok (.file content) =>
        if contentHash crates content ≠ file.contentHash then
          .ok [.modified relPath file.contentHash (contentHash crates content)]
        else .ok []
      | .ok _ => .error (.io "read file for comparison".toList currentPath (.os .isDirectory))
  | none => .ok (if pathExists d currentPath then [.added relPath] else [])

/-- The files below the root that the snapshot does not have. -/
def addedFiles (snapshot : Snapshot) (d : Disk) : List FileDifference :=
  (crates.walkDir d false snapshot.rootPath).filterMap fun names =>
    let filePath := entryPath snapshot.rootPath names
    let relPath := (pathStripPrefix filePath snapshot.rootPath).getD filePath
    match stat d false filePath with
    | .ok (.file _) => if (snapshot.files.get relPath).isNone then some (.added relPath) else none
    | _ => none

def Snapshot.compareWithCurrent (snapshot : Snapshot) (d : Disk)
    (referencePaths : Option (List PathBuf)) : Except SnapshotError (List FileDifference) := do
  let differences ← (referencePaths.getD snapshot.files.keys).mapM (comparePath crates snapshot d)
  .ok (differences.flatten ++ if referencePaths.isNone then addedFiles crates snapshot d else [])

/-! ## Restoring -/

/-- `fs::write`. -/
def writeFile (denied : Loc Text → Bool) (path : PathBuf) (content : Content) :
    Action IoFailure Disk Unit := fun d =>
  match lookup d true path with
  | .error e => (.error (.os e), d)
  | .ok place =>
    if entry d.tree place.loc = some .dir then (.error (.os .isDirectory), d)
    else if denied place.loc then (.error .permissionDenied, d)
    else (.ok (), d.put place.loc (some (.file content)))

/-- `fs::copy`: the target is emptied before the source is read, so a file copied to
itself ends up empty. -/
def copyFile (denied : Loc Text → Bool) (source target : PathBuf) : Action IoFailure Disk Unit :=
  fun d =>
    match stat d true source with
    | .error e => (.error (.os e), d)
    | .ok (.file content) =>
      writeFile denied target
        (if lookup d true source = lookup d true target then .utf8 [] else content) d
    | .ok _ => (.error (.os .invalidInput), d)

/-- A call whose failure is reported with the operation and the path. -/
def ioAt {α : Type} (operation : String) (path : PathBuf) (call : Action IoFailure Disk α) :
    Action SnapshotError Disk α := fun d =>
  match call d with
  | (.ok a, d') => (.ok a, d')
  | (.error e, d') => (.error (.io operation.toList path e), d')

/-- `fs::read`. -/
def readFile (d : Disk) (path : PathBuf) : Except IoFailure Content :=
  match stat d true path with
  | .error e => .error (.os e)
  | .ok (.file content) => .ok content
  | .ok _ => .error (.os .isDirectory)

/-- The first inline content among the files with a hash. -/
def inlineWithHash (files : FileMap) (hash : Text) : Option Content :=
  files.entries.findSome? fun e =>
    if e.2.contentHash = hash then
      match e.2.storage with
      | .inline content => some content
      | _ => none
    else none

/-- The content of a file that is restored. -/
def decode (snapshot : Snapshot) (d : Disk) (targetPath : PathBuf) (file : SnapshotFile) :
    Except SnapshotError Content :=
  match file.storage with
  | .inline content => .ok content
  | .compressed compressed =>
    match crates.inflate compressed with
    | some content => .ok content
    | none => .error (.io "decompress file".toList targetPath .corrupt)
  | .external extPath =>
    match readFile d extPath with
    | .ok content => .ok content
    | .error e => .error (.io "read external storage".toList extPath e)
  | .deduplicated referenceHash =>
    match inlineWithHash snapshot.files referenceHash with
    | some content => .ok content
    | none =>
      .error (.snapshotStale snapshot.id ("Dedup reference not found: ".toList ++ referenceHash))

variable (denied : Loc Text → Bool) (options : RestoreOptions)

def backupTarget (targetPath : PathBuf) : Action SnapshotError Disk Unit := fun d =>
  if pathExists d targetPath && options.backupExisting then
    ioAt "backup file" targetPath
      (copyFile denied targetPath (withExtension targetPath "backup".toList)) d
  else (.ok (), d)

def createParents (targetPath : PathBuf) : Action SnapshotError Disk Unit :=
  if options.createDirectories then
    match parent targetPath with
    | none => pure ()
    | some above => fun d =>
      match createDirAll above d with
      | (.ok (), d') => (.ok (), d')
      | (.error e, d') => (.error (.io "create directory".toList above (.os e)), d')
  else pure ()

/-- Writing one file of the snapshot. -/
def restoreFile (snapshot : Snapshot) (targetPath : PathBuf) (file : SnapshotFile) :
    Action SnapshotError Disk Unit := do
  createParents options targetPath
  let content ← fun d => (decode crates snapshot d targetPath file, d)
  ioAt "write file" targetPath (writeFile denied targetPath content)

/-- One path that is restored, with the ones restored so far. -/
def restoreEntry (snapshot : Snapshot) (restored : List PathBuf) (relPath : PathBuf) :
    Action SnapshotError Disk (List PathBuf) := fun d =>
  match snapshot.files.get relPath with
  | none => (.ok restored, d)
  | some file =>
    let targetPath := pathJoin snapshot.rootPath relPath
    if pathExists d targetPath && !options.overwriteExisting then (.ok restored, d)
    else
      (backupTarget denied options targetPath >>= fun _ =>
        (if options.dryRun then pure () else restoreFile crates denied options snapshot targetPath file)
          >>= fun _ => pure (restored ++ [relPath]) : Action SnapshotError Disk (List PathBuf)) d

def Snapshot.restore (snapshot : Snapshot) (targetPaths : Option (List PathBuf)) :
    Action SnapshotError Disk (List PathBuf) :=
  Action.forEach (restoreEntry crates denied options snapshot) []
    (targetPaths.getD snapshot.files.keys)

end

namespace SnapshotManager

/-- `snapshot_file_path`. -/
def snapshotFilePath (manager : SnapshotManager) (snapshotId : Text) : PathBuf :=
  pathJoin manager.snapshotDir
    ⟨if (stripSuffix ".json".toList snapshotId).isSome then snapshotId
      else snapshotId ++ ".json".toList⟩

def getSnapshot (crates : SnapshotCrates) (d : Disk) (manager : SnapshotManager)
    (snapshotId : Text) : Except SnapshotError Snapshot :=
  let path := snapshotFilePath manager snapshotId
  let unreadable (message : Text) : SnapshotError := .internal "snapshot".toList
    ("failed to deserialize snapshot ".toList ++ snapshotId ++ ": ".toList ++ message)
  if pathExists d path = false then
    .error (.snapshotRequired "snapshot_get".toList
      ("Snapshot ".toList ++ snapshotId ++ " must exist on disk".toList))
  else
    match stat d true path with
    | .error e => .error (.io "open snapshot".toList path (.os e))
    | .ok (.file content) =>
      match crates.parse content with
      | .ok snapshot => .ok snapshot
      | .error message => .error (unreadable message)
    | .ok _ => .error (unreadable (osError .isDirectory).toList)

/-- `restore_snapshot`. -/
def restoreSnapshot (crates : SnapshotCrates) (denied : Loc Text → Bool) (manager : SnapshotManager)
    (snapshotId : Text) : Action SnapshotError Disk Unit := fun d =>
  match getSnapshot crates d manager snapshotId with
  | .error e => (.error e, d)
  | .ok snapshot =>
    (snapshot.restore crates denied ⟨true, true, false, false⟩ none >>= fun _ =>
      pure () : Action SnapshotError Disk Unit) d

end SnapshotManager

end Devit
