import Mathlib.Data.List.Destutter
import Devit.PolicyDecisions

/-! `patch_preview`: what is said of a patch that is not applied yet, and what the parts of
it mean for `patch_apply`. -/
namespace Devit
open Text Path

structure PermissionChange where
  filePath : PathBuf
  currentMode : Nat
  newMode : Nat
  description : Text
  deriving DecidableEq, Repr

structure PatchPreview where
  affectedFiles : List PathBuf
  estimatedLineChanges : Nat
  affectsProtected : Bool
  affectsBinaries : Bool
  policyWarnings : List Text
  recommendedApproval : ApprovalLevel
  permissionChanges : List PermissionChange
  deriving DecidableEq, Repr

inductive RiskLevel where
  | low
  | medium
  | high
  | critical
  deriving DecidableEq, Repr

/-- Why there is no preview. -/
inductive PreviewError where
  | snapshotStale (snapshotId stalenessReason : Text)
  | core (error : DevItError)
  deriving DecidableEq, Repr

/-- What the policy engine of a core engine is made with. -/
structure PolicySettings where
  defaultLevel : ApprovalLevel
  protectedPaths : List PathBuf
  config : PolicyEngine.Config
  deriving DecidableEq, Repr

namespace PatchPreviews
open PatchApply PolicyEngine

/-! ## The policy engine as `patch_apply` asks it -/

/-- A classified change in the form of the policy engine. -/
def policyChange (change : FileChange) : PolicyEngine.FileChange where
  path := change.filePath
  isBinary := change.isBinary
  addsExecBit := change.addsExecBit
  linesAdded := .ofNat change.linesAdded
  linesDeleted := .ofNat change.linesRemoved
  isSymlink := change.isSymlink
  symlinkTargetAbs := change.symlinkTarget
  touchesProtected := false
  touchesSubmodule := change.isSubmodule
  touchesGitmodules := change.touchesGitmodules
  fileSizeBytes := some 0

def policyContext (settings : PolicySettings) (changes : List FileChange) (level : ApprovalLevel) :
    Context where
  fileChanges := changes.map policyChange
  requestedApprovalLevel := level
  protectedPaths := settings.protectedPaths
  config := settings.config

/-- The services of an engine whose policy engine has these settings. -/
def withPolicy (services : Services) (settings : PolicySettings) : Services :=
  { services with
    evaluateChanges := fun changes level => .ok <|
      evaluateChanges services.lowercase settings.defaultLevel
        (policyContext settings changes level) }

/-! ## Permissions -/

/-- The path behind the second side of a `diff --git` line. -/
def extractDiffPath (line : Text) : Option PathBuf :=
  if startsWith "diff --git".toList line then
    (splitWhitespace line)[3]?.map fun bPath => ⟨(stripPrefix "b/".toList bPath).getD bPath⟩
  else none

def parseModeLine (start line : Text) : Option Nat :=
  if startsWith start line then
    (splitWhitespace line)[2]?.bind (parseUnsigned 8 (2 ^ 32 - 1))
  else none

def permissionChange (path : PathBuf) (previous new : Nat) : PermissionChange where
  filePath := path
  currentMode := previous
  newMode := new
  description := "mode change ".toList ++ Nat.toDigits 8 previous ++ " → ".toList ++
    Nat.toDigits 8 new

/-- Where the scan for modes is. -/
structure Scan where
  currentPath : Option PathBuf
  oldMode : Option Nat
  changes : List PermissionChange
  deriving DecidableEq, Repr

def scanLine (scan : Scan) (line : Text) : Scan :=
  match extractDiffPath line with
  | some path => { scan with currentPath := some path, oldMode := none }
  | none =>
    match parseModeLine "old mode".toList line with
    | some mode => { scan with oldMode := some mode }
    | none =>
      match parseModeLine "new mode".toList line with
      | none => scan
      | some newMode =>
        -- the old mode is taken whether there is a path or not
        match scan.currentPath, scan.oldMode with
        | some path, some previousMode =>
          { scan with
            oldMode := none
            changes := scan.changes ++
              if previousMode ≠ newMode then [permissionChange path previousMode newMode] else [] }
        | _, _ => { scan with oldMode := none }

def extractPermissionChanges (patchContent : Text) : List PermissionChange :=
  ((lines patchContent).foldl scanLine ⟨none, none, []⟩).changes

/-! ## The preview -/

/-- `PatchManager::recommended_approval`. -/
def approvalFor : RiskLevel → ApprovalLevel
  | .low => .untrusted
  | .medium => .ask
  | .high => .moderate
  | .critical => .trusted

def riskScore (affectsProtected affectsBinaries : Bool) (estimatedLineChanges fileCount : Nat) :
    Nat :=
  let score := if affectsProtected then 2 else 0
  let score := if affectsBinaries then max score 1 else score
  if estimatedLineChanges > 1000 ∨ fileCount > 25 then 3
  else if estimatedLineChanges > 400 ∨ fileCount > 10 then max score 1
  else score

def riskOfScore : Nat → RiskLevel
  | 0 => .low
  | 1 => .medium
  | 2 => .high
  | _ => .critical

def recommendedApproval (affectsProtected affectsBinaries : Bool)
    (estimatedLineChanges fileCount : Nat) : ApprovalLevel :=
  approvalFor <| riskOfScore <|
    riskScore affectsProtected affectsBinaries estimatedLineChanges fileCount

def pathMatchesRule (path rule : PathBuf) : Bool := same path rule || pathStartsWith path rule

def protectedRuleHits (protectedPaths paths : List PathBuf) : List Text :=
  paths.flatMap fun path => protectedPaths.filterMap fun rule =>
    if pathMatchesRule path rule then
      some ("Path ".toList ++ path.text ++ " matches protected rule ".toList ++ rule.text)
    else none

def textLe (a b : Text) : Bool := compareText a b != .gt

/-- `sort` and `dedup`. -/
def sortedOnce (warnings : List Text) : List Text :=
  (warnings.insertionSort (textLe · ·)).destutter (· ≠ ·)

section
variable (services : Services) (settings : PolicySettings)
  -- `snapshot_validate` for the whole workspace.
  (snapshotValidate : Text → World → DevItResult Bool)

/-- The warnings about one change. -/
def pathWarnings (w : World) (change : FileChange) : List Text :=
  (match w.engine.pathSecurity.validatePatchPath services.crates.clean w.disk change.filePath with
    | .error e => [e.display]
    | .ok _ => []) ++
  match change.isSymlink, change.symlinkTarget with
  | true, some target =>
    match w.engine.pathSecurity.validateSymlink services.crates.clean w.disk change.filePath
        target with
    | .error e => [e.display]
    | .ok () => []
  | _, _ => []

def evaluatePathSafety (w : World) (changes : List FileChange) : Bool × List Text :=
  let warnings := changes.flatMap (pathWarnings services w)
  (!warnings.isEmpty, warnings)

/-- The preview of a patch whose base is up to date. -/
def analyze (w : World) (patchContent : Text) : DevItResult PatchPreview := do
  let fileChanges ← PatchClassify.classifyChanges patchContent
  if fileChanges = [] then
    .error (.invalidDiff "Patch does not contain any file changes".toList none)
  else
    let affectedFiles := uniquePaths fileChanges
    let estimatedLineChanges := (fileChanges.map fun change =>
      change.linesAdded + change.linesRemoved).sum
    let affectsBinaries := fileChanges.any (·.isBinary)
    let permissionChanges := extractPermissionChanges patchContent
    let (unsafePaths, warnings) := evaluatePathSafety services w fileChanges
    let hits := protectedRuleHits settings.protectedPaths affectedFiles
    let affectsProtected := unsafePaths || !permissionChanges.isEmpty || !hits.isEmpty
    .ok {
      affectedFiles := affectedFiles
      estimatedLineChanges := estimatedLineChanges
      affectsProtected := affectsProtected
      affectsBinaries := affectsBinaries
      policyWarnings := sortedOnce (warnings ++ hits)
      recommendedApproval := recommendedApproval affectsProtected affectsBinaries
        estimatedLineChanges affectedFiles.length
      permissionChanges := permissionChanges }

def recorded (w : World) : World :=
  { w with engine := { w.engine with journal := w.engine.journal + 1 } }

/-- `CoreEngine::patch_preview`. A validation and a preview are entries of the journal. -/
def patchPreview (patchContent : Text) (baseSnapshot : Option Text) :
    Action PreviewError World PatchPreview := fun w =>
  let preview (w : World) : Except PreviewError PatchPreview × World :=
    match analyze services settings w patchContent with
    | .error e => (.error (.core e), w)
    | .ok shown => (.ok shown, recorded w)
  match baseSnapshot with
  | none => preview w
  | some snapshotId =>
    match snapshotValidate snapshotId w with
    | .error e => (.error (.core e), w)
    | .ok false => (.error (.snapshotStale snapshotId
        "Base snapshot is stale relative to workspace state".toList), recorded w)
    | .ok true => preview (recorded w)

end

/-! ## Warnings -/

variable {services : Services} {settings : PolicySettings} {w : World}
  {changes : List FileChange} {change : FileChange} {preview : PatchPreview}
  {patchContent : Text}

theorem pathWarnings_nil_iff :
    pathWarnings services w change = [] ↔ checkPaths services w change = .ok () := by
  unfold pathWarnings checkPaths
  cases w.engine.pathSecurity.validatePatchPath services.crates.clean w.disk change.filePath with
  | error e => exact iff_of_false (by simp) (by simp [bind, Except.bind])
  | ok path =>
    cases change.isSymlink with
    | false => exact iff_of_true rfl rfl
    | true =>
      cases change.symlinkTarget with
      | none => exact iff_of_true rfl rfl
      | some target =>
        simp only [List.nil_append, bind, Except.bind]
        cases w.engine.pathSecurity.validateSymlink services.crates.clean w.disk change.filePath
            target with
        | error e => exact iff_of_false (by simp) (by simp)
        | ok => exact iff_of_true rfl rfl

/-- The first of a run of equal paths stands for all of them. -/
theorem mem_dropRepeated {p : PathBuf} (last : PathBuf) (rest : List PathBuf) :
    (p ∈ dropRepeated last rest → p ∈ rest) ∧
      (p ∈ rest → ∃ kept ∈ last :: dropRepeated last rest, same kept p = true) := by
  induction rest generalizing last with
  | nil => exact ⟨id, fun none => absurd none List.not_mem_nil⟩
  | cons q rest ih =>
    rw [dropRepeated]
    by_cases repeated : same last q = true
    · rw [if_pos repeated]
      refine ⟨fun member => List.mem_cons_of_mem _ ((ih last).1 member), fun member => ?_⟩
      rcases List.mem_cons.mp member with rfl | member
      · exact ⟨last, List.mem_cons_self, repeated⟩
      · exact (ih last).2 member
    · rw [if_neg repeated]
      constructor
      · intro member
        rcases List.mem_cons.mp member with rfl | member
        · exact List.mem_cons_self
        · exact List.mem_cons_of_mem _ ((ih q).1 member)
      · intro member
        rcases List.mem_cons.mp member with rfl | member
        · exact ⟨p, List.mem_cons_of_mem _ List.mem_cons_self, by simp [same]⟩
        · obtain ⟨kept, inside, equal⟩ := (ih q).2 member
          exact ⟨kept, List.mem_cons_of_mem _ inside, equal⟩

/-- The affected files are the changed files, up to their spelling. -/
theorem mem_uniquePaths : (∀ p ∈ uniquePaths changes, ∃ change ∈ changes, change.filePath = p) ∧
    ∀ change ∈ changes, ∃ p ∈ uniquePaths changes, same p change.filePath = true := by
  have sorted : ∀ p, p ∈ (changes.map (·.filePath)).insertionSort (pathLe · ·) ↔
      ∃ change ∈ changes, change.filePath = p := by
    intro p
    rw [(List.perm_insertionSort _ _).mem_iff, List.mem_map]
  unfold uniquePaths
  cases shape : (changes.map (·.filePath)).insertionSort (pathLe · ·) with
  | nil =>
    rw [shape] at sorted
    refine ⟨fun p none => absurd none List.not_mem_nil, fun change member => ?_⟩
    exact absurd ((sorted change.filePath).mpr ⟨change, member, rfl⟩) List.not_mem_nil
  | cons first rest =>
    rw [shape] at sorted
    constructor
    · intro p member
      apply (sorted p).mp
      rcases List.mem_cons.mp member with rfl | member
      · exact List.mem_cons_self
      · exact List.mem_cons_of_mem _ ((mem_dropRepeated first rest).1 member)
    · intro change member
      rcases List.mem_cons.mp ((sorted change.filePath).mpr ⟨change, member, rfl⟩) with own | later
      · exact ⟨first, List.mem_cons_self, by rw [own]; simp [same]⟩
      · exact (mem_dropRepeated first rest).2 later

theorem pathMatchesRule_eq (path rule : PathBuf) :
    pathMatchesRule path rule = pathStartsWith path rule := by
  unfold pathMatchesRule
  by_cases equal : same path rule = true
  · rw [equal, Bool.true_or, PolicyDecisions.pathStartsWith_of_same equal]
  · rw [Bool.eq_false_iff.mpr equal, Bool.false_or]

theorem pathStartsWith_congr {p q base : PathBuf} (equal : same p q = true) :
    pathStartsWith p base = pathStartsWith q base := by
  have parts : components p = components q := by simpa [same] using equal
  rw [pathStartsWith, pathStartsWith, parts]

/-- No rule is hit exactly if the policy engine finds none of the files protected. -/
theorem hits_nil_iff {rules : List PathBuf} :
    protectedRuleHits rules (uniquePaths changes) = [] ↔
      ∀ change ∈ changes, ∀ rule ∈ rules, pathStartsWith change.filePath rule = false := by
  have quiet : protectedRuleHits rules (uniquePaths changes) = [] ↔
      ∀ p ∈ uniquePaths changes, ∀ rule ∈ rules, pathStartsWith p rule = false := by
    simp [protectedRuleHits, pathMatchesRule_eq]
  obtain ⟨named, listed⟩ := @mem_uniquePaths changes
  rw [quiet]
  constructor
  · intro all change member rule inside
    obtain ⟨p, kept, equal⟩ := listed change member
    rw [← pathStartsWith_congr equal]
    exact all p kept rule inside
  · intro all p kept rule inside
    obtain ⟨change, member, rfl⟩ := named p kept
    exact all change member rule inside

theorem sortedOnce_nil_iff {warnings : List Text} : sortedOnce warnings = [] ↔ warnings = [] := by
  unfold sortedOnce
  rw [List.destutter_eq_nil]
  constructor
  · intro sorted
    have size := List.length_insertionSort (textLe · ·) warnings
    rw [sorted] at size
    exact List.length_eq_zero_iff.mp size.symm
  · rintro rfl
    rfl

/-! ## What a preview says -/

/-- The lines of a change. -/
def lineCount (change : FileChange) : Nat := change.linesAdded + change.linesRemoved

/-- A preview, by its parts. -/
structure Shows (services : Services) (settings : PolicySettings) (w : World)
    (changes : List FileChange) (preview : PatchPreview) : Prop where
  some_change : changes ≠ []
  lines : preview.estimatedLineChanges = (changes.map lineCount).sum
  binaries : preview.affectsBinaries = changes.any (·.isBinary)
  silent : preview.policyWarnings = [] ↔
    (∀ change ∈ changes, checkPaths services w change = .ok ()) ∧
      ∀ change ∈ changes, ∀ rule ∈ settings.protectedPaths,
        pathStartsWith change.filePath rule = false
  guarded : preview.affectsProtected = false ↔
    preview.policyWarnings = [] ∧ preview.permissionChanges = []
  level : preview.recommendedApproval = recommendedApproval preview.affectsProtected
    preview.affectsBinaries preview.estimatedLineChanges preview.affectedFiles.length

theorem analyze_shows (classified : PatchClassify.classifyChanges patchContent = .ok changes)
    (shown : analyze services settings w patchContent = .ok preview) :
    Shows services settings w changes preview := by
  rw [analyze, classified] at shown
  simp only [bind, Except.bind] at shown
  split at shown
  · cases shown
  · rename_i some_change
    cases shown
    have warned : changes.flatMap (pathWarnings services w) = [] ↔
        ∀ change ∈ changes, checkPaths services w change = .ok () := by
      rw [List.flatMap_eq_nil_iff]
      exact forall₂_congr fun change _ => pathWarnings_nil_iff
    refine ⟨some_change, rfl, rfl, ?_, ?_, rfl⟩
    · rw [sortedOnce_nil_iff, List.append_eq_nil_iff, hits_nil_iff]
      exact and_congr_left' warned
    · rw [sortedOnce_nil_iff, List.append_eq_nil_iff]
      simp only [evaluatePathSafety, Bool.or_eq_false_iff, Bool.not_eq_false',
        List.isEmpty_iff]
      exact ⟨fun ⟨⟨paths, modes⟩, hits⟩ => ⟨⟨paths, hits⟩, modes⟩,
        fun ⟨⟨paths, hits⟩, modes⟩ => ⟨⟨paths, modes⟩, hits⟩⟩

/-- A preview changes the journal only. -/
theorem patchPreview_analyzes {validate : Text → World → DevItResult Bool} {base : Option Text}
    (shown : (patchPreview services settings validate patchContent base w).1 = .ok preview) :
    let after := (patchPreview services settings validate patchContent base w).2
    analyze services settings w patchContent = .ok preview ∧
      after.disk = w.disk ∧ after.engine.pathSecurity = w.engine.pathSecurity := by
  have analyzed {v : World} (same_disk : v.disk = w.disk)
      (same_paths : v.engine.pathSecurity = w.engine.pathSecurity) :
      let made : Except PreviewError PatchPreview × World :=
        match analyze services settings v patchContent with
        | .error e => (.error (.core e), v)
        | .ok shown => (.ok shown, recorded v)
      made.1 = .ok preview → analyze services settings v patchContent = .ok preview ∧
        made.2.disk = w.disk ∧ made.2.engine.pathSecurity = w.engine.pathSecurity := by
    cases analyze services settings v patchContent with
    | error e => exact fun failed => absurd failed (by simp)
    | ok other =>
      intro made succeeded
      cases succeeded
      exact ⟨rfl, same_disk, same_paths⟩
  unfold patchPreview at shown ⊢
  cases base with
  | none => exact analyzed rfl rfl shown
  | some snapshotId =>
    dsimp only at shown ⊢
    generalize validate snapshotId w = validated at shown ⊢
    cases validated with
    | error e => cases shown
    | ok valid =>
      cases valid with
      | false => cases shown
      | true => exact @analyzed (recorded w) rfl rfl shown

end PatchPreviews

end Devit
