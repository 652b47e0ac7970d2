import Mathlib.Data.List.Sort
import Devit.CoreEngine
import Devit.PatchClassify
import Devit.PatchSections

/-! `patch_apply`: a patch is judged, applied, and its answer kept under the
caller's idempotency key. A call is three steps that other calls may come between:
looking for a kept answer, the work itself, and keeping the answer. -/
namespace Devit
open Text Path FileSystem

structure PatchResult where
  success : Bool
  modifiedFiles : List PathBuf
  warnings : List Text
  infoMessages : List Text
  resultingSnapshot : Option Text
  /-- In nanoseconds. -/
  executionTime : Nat
  requiredElevation : Bool
  commitSha : Option Text
  rollbackCmd : Option Text
  autoReverted : Bool
  revertedSha : Option Text
  deriving DecidableEq, Repr

structure PolicyDecision where
  allow : Bool
  requiresConfirmation : Bool
  reason : Text
  downgradedTo : Option ApprovalLevel
  deriving DecidableEq, Repr

/-- What `patch_apply` asks of others: the policy engine, the JSON form of an
answer, and two texts that the language makes. -/
structure Services where
  crates : PathCrates
  /-- `PolicyEngine::evaluate_changes`, or why it failed. -/
  evaluateChanges : List FileChange → ApprovalLevel → Except Text PolicyDecision
  /-- `serde_json::to_string` and `from_str`. -/
  serialize : PatchResult → Option Text
  deserialize : Text → Option PatchResult
  /-- `str::to_lowercase`. -/
  lowercase : Text → Text
  /-- A level as `{:?}` shows it. -/
  levelText : ApprovalLevel → Text

structure PatchRequest where
  patchContent : Text
  approvalLevel : ApprovalLevel
  dryRun : Bool
  idempotencyKey : Option Text
  deriving DecidableEq, Repr

/-- What happens around one call: the clock when it looks for an answer and when it
keeps one, how long the work takes, and how `git commit` ends. -/
structure Moment where
  lookedUp : Nat
  recorded : Nat
  elapsed : Nat
  /-- Whether it succeeded, with its output and its errors. -/
  commit : Except Files.Errno (Bool × Text × Text)

/-- The engine and the tree it works on. -/
structure World where
  engine : CoreEngine
  disk : Disk

namespace PatchApply

/-! ## Judging a patch -/

/-- The order of texts. -/
def compareText : Text → Text → Ordering
  | [], [] => .eq
  | [], _ :: _ => .lt
  | _ :: _, [] => .gt
  | c :: cs, d :: ds => (compare c.toNat d.toNat).then (compareText cs ds)

def componentRank : Component → Nat
  | .rootDir => 0
  | .curDir => 1
  | .parentDir => 2
  | .normal _ => 3

def compareComponents : List Component → List Component → Ordering
  | [], [] => .eq
  | [], _ :: _ => .lt
  | _ :: _, [] => .gt
  | c :: cs, d :: ds =>
    (compare (componentRank c) (componentRank d)).then <|
      (compareText c.text d.text).then (compareComponents cs ds)

/-- The order of paths is that of their components. -/
def pathLe (p q : PathBuf) : Bool := compareComponents (components p) (components q) != .gt

/-- `Vec::dedup` behind an element that is kept. -/
def dropRepeated : PathBuf → List PathBuf → List PathBuf
  | _, [] => []
  | last, p :: rest => if same last p then dropRepeated last rest else p :: dropRepeated p rest

def uniquePaths (changes : List FileChange) : List PathBuf :=
  match (changes.map (·.filePath)).insertionSort (pathLe · ·) with
  | [] => []
  | first :: rest => first :: dropRepeated first rest

/-- `infer_policy_rule`, on the reason in lower case. -/
def inferPolicyRule (lower : Text) : Text :=
  let has (word : String) : Bool := contains word.toList lower
  if has ".env" || has "protected path" || has "chemin prot" then "policy_protected_path".toList
  else if has "executable" || has "permission exécutable" then "policy_exec_permission".toList
  else if has "binary" || has "binaire" then "policy_binary_restriction".toList
  else if has "gitmodules" then "policy_gitmodules".toList
  else if has "symlink" || has "lien symbolique" then "policy_symlink_restriction".toList
  else "policy_evaluation".toList

/-- What is known of a patch that may be applied. -/
structure Approved where
  affectedFiles : List PathBuf
  warnings : List Text
  infoMessages : List Text
  deriving DecidableEq, Repr

section
variable (services : Services)

/-- Step 1.5: every path, and the target of every link, is checked. -/
def checkPaths (w : World) (change : FileChange) : DevItResult Unit := do
  let _ ← w.engine.pathSecurity.validatePatchPath services.crates.clean w.disk change.filePath
  match change.isSymlink, change.symlinkTarget with
  | true, some target =>
    w.engine.pathSecurity.validateSymlink services.crates.clean w.disk change.filePath target
  | _, _ => .ok ()

def analysisMessages (changes : List FileChange) : List Text :=
  let binaryFiles := (changes.filter (·.isBinary)).map (·.filePath.text)
  ["Analyzed ".toList ++ printNat changes.length ++ " file changes from patch".toList] ++
    (if binaryFiles = [] then [] else
      ["Detected binary file changes (whitelist enforced): ".toList ++
        join ", ".toList binaryFiles]) ++
    ["Path security validation passed".toList]

/-- Step 2: the policy's decision as a warning, a message or a refusal. -/
def heedPolicy (level : ApprovalLevel) (decision : PolicyDecision) :
    DevItResult (List Text × List Text) :=
  if decision.allow = false then
    .error (.policyBlock (inferPolicyRule (services.lowercase decision.reason))
      (match decision.downgradedTo with
        | some downgraded => services.levelText downgraded
        | none => "Higher".toList)
      (services.levelText level) decision.reason)
  else if decision.requiresConfirmation then
    if level = .ask then .ok (["Policy requires confirmation: ".toList ++ decision.reason], [])
    else .error (.policyBlock "confirmation_required".toList "Ask".toList
      (services.levelText level) decision.reason)
  else .ok ([], ["Policy evaluation: ".toList ++ decision.reason])

/-- Steps 1 and 2. -/
def judge (w : World) (request : PatchRequest) : DevItResult Approved := do
  let changes ← PatchClassify.classifyChanges request.patchContent
  if changes = [] then
    .error (.invalidDiff "No valid file changes found in patch".toList none)
  else do
    changes.forM (checkPaths services w)
    let decision ← (services.evaluateChanges changes request.approvalLevel).mapError fun message =>
      .internal "policy_engine".toList ("Policy evaluation failed: ".toList ++ message)
    let (warnings, messages) ← heedPolicy services request.approvalLevel decision
    .ok {
      affectedFiles := uniquePaths changes
      warnings := warnings
      infoMessages := analysisMessages changes ++ messages ++
        ["Applying patch with atomic file operations".toList] }

/-! ## Applying it -/

/-- Step 3, on the disk of the world. -/
def applyStep (request : PatchRequest) : Action DevItError World PatchStats := fun w =>
  let (outcome, disk) := AtomicPatcher.applyPatch ⟨w.engine.patchDir, request.dryRun⟩
    request.patchContent w.disk
  (outcome, { w with disk := disk })

def successMessage (stats : PatchStats) : Text :=
  "Successfully applied patch: ".toList ++ printNat (stats.filesModified + stats.filesCreated) ++
    " files modified, ".toList ++ printNat stats.hunksApplied ++ " hunks, +".toList ++
    printNat stats.linesAdded ++ " -".toList ++ printNat stats.linesRemoved ++ " lines".toList

/-- The name of the commit that `git commit` reports. -/
def reportedSha (stdout : Text) : Text :=
  ((lines stdout).findSome? fun line =>
    if startsWith ['['] line then (splitWhitespace line)[1]? else none).getD "unknown".toList

/-- Step 5: the commit, if one is to be made, and what is said of it. -/
def commitStep (w : World) (moment : Moment) :
    DevItResult (Option Text × List Text × List Text) :=
  if w.engine.config.autoCommit then
    match moment.commit with
    | .error e => .error (.io "git commit".toList (some w.engine.workspace.currentPath) e)
    | .ok (true, stdout, _) =>
      .ok (some (reportedSha stdout), [], ["Creating commit for applied patch".toList,
        "Created commit: ".toList ++ reportedSha stdout])
    | .ok (false, _, stderr) =>
      .ok (none, ["Commit failed: ".toList ++ stderr], ["Creating commit for applied patch".toList])
  else .ok (none, [], ["Auto-commit disabled - changes staged only".toList])

def rollbackCommand (commitSha : Option Text) : Text :=
  match commitSha with
  | some sha => "git revert ".toList ++ sha
  | none => "git reset --hard HEAD".toList

/-- The answer of a dry run. -/
def dryResult (approved : Approved) (moment : Moment) : PatchResult where
  success := true
  modifiedFiles := []
  warnings := approved.warnings
  infoMessages := approved.infoMessages ++ ["Patch validation and application successful".toList,
    "Dry run complete - no files were modified".toList]
  resultingSnapshot := none
  executionTime := moment.elapsed
  requiredElevation := false
  commitSha := none
  rollbackCmd := none
  autoReverted := false
  revertedSha := none

/-- Steps 4.5 to 7 of a patch that was applied: it is checked again, committed and
written to the journal. -/
def finish (moment : Moment) (approved : Approved) (stats : PatchStats) :
    Action DevItError World PatchResult := fun w =>
  match w.engine.pathSecurity.preCommitValidation services.crates.clean w.disk
      approved.affectedFiles with
  | .error e => (.error e, w)
  | .ok () =>
    match commitStep w moment with
    | .error e => (.error e, w)
    | .ok (commitSha, warnings, messages) =>
      (.ok {
        success := true
        modifiedFiles := approved.affectedFiles
        warnings := approved.warnings ++ warnings
        infoMessages := approved.infoMessages ++
          ["Patch validation and application successful".toList, successMessage stats,
            "Pre-commit security validation passed".toList] ++ messages ++
          ["Journal entry recorded: offset ".toList ++ printNat w.engine.journal,
            "Rollback command available: ".toList ++ rollbackCommand commitSha]
        resultingSnapshot := none
        executionTime := moment.elapsed
        requiredElevation := false
        commitSha := commitSha
        rollbackCmd := some (rollbackCommand commitSha)
        autoReverted := false
        revertedSha := none },
      { w with engine := { w.engine with journal := w.engine.journal + 1 } })

/-- Everything between looking for an answer and keeping one. -/
def perform (request : PatchRequest) (moment : Moment) : Action DevItError World PatchResult :=
  fun w =>
    match judge services w request with
    | .error e => (.error e, w)
    | .ok approved =>
      match applyStep request w with
      | (.error e, w) => (.error e, w)
      | (.ok stats, w) =>
        if request.dryRun then (.ok (dryResult approved moment), w)
        else finish services moment approved stats w

/-! ## Kept answers -/

/-- The hour that an answer is kept. -/
def timeToLive : Nat := 3600 * 10 ^ 9

def withCache (w : World) (cache : IdempotencyCache) : World :=
  { w with engine := { w.engine with idempotencyCache := cache } }

/-- Looking for a kept answer. One that does not read back is passed over. -/
def lookUp (request : PatchRequest) (moment : Moment) (w : World) : Option PatchResult × World :=
  match request.idempotencyKey with
  | none => (none, w)
  | some key =>
    let cleaned := w.engine.idempotencyCache.cleanupExpired moment.lookedUp
    let (found, cache) := cleaned.get moment.lookedUp key
    (found.bind fun entry => services.deserialize entry.response, withCache w cache)

/-- Keeping an answer. -/
def record (request : PatchRequest) (moment : Moment) (result : PatchResult) (w : World) : World :=
  match request.idempotencyKey, services.serialize result with
  | some key, some response =>
    withCache w (w.engine.idempotencyCache.insert moment.recorded key response timeToLive)
  | _, _ => w

/-- `CoreEngine::patch_apply`. -/
def patchApply (request : PatchRequest) (moment : Moment) : Action DevItError World PatchResult :=
  fun w =>
    match lookUp services request moment w with
    | (some kept, w) => (.ok kept, w)
    | (none, w) =>
      match perform services request moment w with
      | (.error e, w) => (.error e, w)
      | (.ok result, w) => (.ok result, record services request moment result w)

end

end PatchApply

end Devit
