import Devit.Errors
import Devit.Library.Table
import Devit.Snapshot

/-! Identifiers for the state of a repository: what is asked of git, the identifier
made of the answers, the cache of identifiers and how an identifier is checked. The
git commands and BLAKE3 are given from outside. -/
namespace Devit.SnapshotIds
open Text Path FileSystem

/-- The commands that are run in a repository: what they print, if they succeed. -/
structure GitCommands where
  revParseHead : PathBuf → Disk → Option Text
  status : PathBuf → Disk → Option Text
  lsFiles : PathBuf → PathBuf → Disk → Option Text

structure GitState where
  headSha : Option Text
  porcelainStatus : Text
  hasMergeConflict : Bool
  hasRebaseConflict : Bool
  submodulesDigest : Option Text
  deriving DecidableEq, Repr

structure IndexSignature where
  headSha : Option Text
  summary : Text
  deriving DecidableEq, Repr

/-- `Ord for str`. -/
def textLe (s t : Text) : Bool := decide (s.map Char.toNat ≤ t.map Char.toNat)

variable (blake3 : List UInt8 → List UInt8)

/-- The first bytes of a hash, as they are shown. -/
def hashText (size : Nat) (bytes : List UInt8) : Text := hexEncode ((blake3 bytes).take size)

/-- `get_git_state`. -/
def getGitState (git : GitCommands) (repoPath : PathBuf) (d : Disk) : GitState where
  headSha := (git.revParseHead repoPath d).map trim
  porcelainStatus :=
    match git.status repoPath d with
    | some output =>
      join ['\n'] (((splitOn (· == '\x00') output).filter (· != [])).mergeSort textLe)
    | none => []
  hasMergeConflict := pathExists d (pathJoin repoPath ⟨".git/MERGE_HEAD".toList⟩)
  hasRebaseConflict :=
    pathExists d (pathJoin repoPath ⟨".git/REBASE_HEAD".toList⟩) ||
      pathExists d (pathJoin repoPath ⟨".git/rebase-merge".toList⟩) ||
      pathExists d (pathJoin repoPath ⟨".git/rebase-apply".toList⟩)
  submodulesDigest :=
    match readToString d (pathJoin repoPath ⟨".gitmodules".toList⟩) with
    | .ok contents => some (hashText blake3 8 (textBytes contents))
    | .error _ => none

namespace IndexSignature

def digest (signature : IndexSignature) : Text :=
  hashText blake3 16
    (textBytes (signature.headSha.getD []) ++ textBytes signature.summary)

def headComponent (signature : IndexSignature) : Text :=
  match signature.headSha with
  | some head => if head = [] then "nohead".toList else head
  | none => "nohead".toList

def cacheKey (signature : IndexSignature) : Text :=
  signature.headComponent ++ ':' :: signature.digest blake3

end IndexSignature

/-- The least recently used key is the first of the order. -/
structure SnapshotSignatureCache where
  capacity : Nat
  entries : Table Text
  order : List Text

namespace SnapshotSignatureCache

def withCapacity (capacity : Nat) : SnapshotSignatureCache := ⟨max capacity 1, ∅, []⟩

def removeFromOrder (cache : SnapshotSignatureCache) (key : Text) : SnapshotSignatureCache :=
  { cache with order := cache.order.erase key }

def markRecent (cache : SnapshotSignatureCache) (key : Text) : SnapshotSignatureCache :=
  let removed := cache.removeFromOrder key
  { removed with order := removed.order ++ [key] }

def get (cache : SnapshotSignatureCache) (signature : IndexSignature) :
    Option Text × SnapshotSignatureCache :=
  let key := signature.cacheKey blake3
  match cache.entries.lookup key with
  | some snapshotId => (some snapshotId, cache.markRecent key)
  | none => (none, cache)

/-- The loop of `evict_if_needed`. -/
def evict (capacity : Nat) : List Text → Table Text → List Text × Table Text
  | [], entries => ([], entries)
  | oldest :: order, entries =>
    if capacity < entries.keys.length then evict capacity order (entries.erase oldest)
    else (oldest :: order, entries)

def evictIfNeeded (cache : SnapshotSignatureCache) : SnapshotSignatureCache :=
  let (order, entries) := evict cache.capacity cache.order cache.entries
  { cache with order, entries }

def insert (cache : SnapshotSignatureCache) (signature : IndexSignature) (snapshotId : Text) :
    SnapshotSignatureCache :=
  let key := signature.cacheKey blake3
  let inserted := { cache with entries := cache.entries.insert key snapshotId }
  let moved := if key ∈ cache.entries then inserted.removeFromOrder key else inserted
  evictIfNeeded { moved with order := moved.order ++ [key] }

end SnapshotSignatureCache

/-- The error for a repository with a merge or a rebase under way. -/
def conflict (location hint : String) (gitState : GitState) : DevItError :=
  .vcsConflict location.toList
    (if gitState.hasMergeConflict then "merge" else "rebase").toList [] (some hint.toList)

def GitState.inConflict (gitState : GitState) : Bool :=
  gitState.hasMergeConflict || gitState.hasRebaseConflict

/-- What the identifier is the hash of. -/
def stateBytes (gitState : GitState) : List UInt8 :=
  textBytes (gitState.headSha.getD "nohead".toList) ++ textBytes gitState.porcelainStatus ++
    [(if gitState.hasMergeConflict then 1 else 0), (if gitState.hasRebaseConflict then 1 else 0)] ++
    textBytes (gitState.submodulesDigest.getD [])

def generateSnapshotIdFromGit (gitState : GitState) : DevItResult Text :=
  if gitState.inConflict then
    .error (conflict "snapshot_get"
      "Repository has unresolved conflicts. Resolve them before creating snapshots." gitState)
  else .ok ("snap-".toList ++ hashText blake3 16 (stateBytes gitState))

/-- The signature under which the identifier of a state is cached. -/
def signatureOf (gitState : GitState) : IndexSignature where
  headSha := gitState.headSha
  summary := gitState.porcelainStatus ++ (if gitState.hasMergeConflict then ['M'] else []) ++
    (if gitState.hasRebaseConflict then ['R'] else [])

/-- `snapshot_get`, once the state is known. -/
def snapshotGetIn (gitState : GitState) (cache : SnapshotSignatureCache) :
    DevItResult Text × SnapshotSignatureCache :=
  let signature := signatureOf gitState
  match cache.get blake3 signature with
  | (some snapshotId, cache) => (.ok snapshotId, cache)
  | (none, cache) =>
    match generateSnapshotIdFromGit blake3 gitState with
    | .error e => (.error e, cache)
    | .ok snapshotId => (.ok snapshotId, cache.insert blake3 signature snapshotId)

def snapshotGet (git : GitCommands) (repoPath : PathBuf) (d : Disk)
    (cache : SnapshotSignatureCache) : DevItResult Text × SnapshotSignatureCache :=
  snapshotGetIn blake3 (getGitState blake3 git repoPath d) cache

/-- Whether git lists a path that exists. -/
def listed (git : GitCommands) (repoPath : PathBuf) (d : Disk) (path : PathBuf) : Bool :=
  (stat d true (pathJoin repoPath path)).isOk &&
    match git.lsFiles repoPath path d with
    | some output => trim output != []
    | none => false

/-- `validate_affected_paths`: the loop goes on with the next path in any case. -/
def validateAffectedPaths (git : GitCommands) (repoPath : PathBuf) (d : Disk) :
    List PathBuf → DevItResult Bool
  | [] => .ok true
  | path :: paths =>
    if listed git repoPath d path then validateAffectedPaths git repoPath d paths
    else validateAffectedPaths git repoPath d paths

/-- `snapshot_validate`, once the state is known. -/
def snapshotValidateIn (git : GitCommands) (snapshotId : Text) (repoPath : PathBuf) (d : Disk)
    (affectedPaths : List PathBuf) (gitState : GitState) (cache : SnapshotSignatureCache) :
    DevItResult Bool × SnapshotSignatureCache :=
  if gitState.inConflict then
    (.error (conflict "snapshot_validate"
      "Repository has unresolved conflicts. Resolve them before validating snapshots." gitState), cache)
  else
    let signature := signatureOf gitState
    let (entry, cache) := cache.get blake3 signature
    if entry = some snapshotId then
      (validateAffectedPaths git repoPath d affectedPaths, cache)
    else
      match generateSnapshotIdFromGit blake3 gitState with
      | .error e => (.error e, cache)
      | .ok expectedId =>
        if expectedId = snapshotId then
          (validateAffectedPaths git repoPath d affectedPaths, cache.insert blake3 signature expectedId)
        else (.ok false, cache)

def snapshotValidate (git : GitCommands) (snapshotId : Text) (repoPath : PathBuf) (d : Disk)
    (affectedPaths : List PathBuf) (cache : SnapshotSignatureCache) :
    DevItResult Bool × SnapshotSignatureCache :=
  snapshotValidateIn blake3 git snapshotId repoPath d affectedPaths
    (getGitState blake3 git repoPath d) cache

end Devit.SnapshotIds
