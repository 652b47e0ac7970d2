import Devit.Library.Spelling
import Devit.PolicyOrder

/-! What `patch_apply` lets the policy judge, and how far that depends on the spelling of
the paths in the patch. File names are read off at the end of a path, so `.env` and the
extensions are found in every spelling; `.gitmodules`, the protected paths and those
allowed to the privileged are compared with the whole path, in which a `.` in front
counts. -/
namespace Devit
open Text Path

namespace PolicySpelling
open PolicyEngine PolicyDecisions PolicyOrder ApprovalLevel Joins

/-- A classified change as the policy is given it. -/
def policyChange (change : FileChange) : PolicyEngine.FileChange where
  path := change.filePath
  isBinary := change.isBinary
  addsExecBit := change.addsExecBit
  linesAdded := change.linesAdded.toUInt64
  linesDeleted := change.linesRemoved.toUInt64
  isSymlink := change.isSymlink
  symlinkTargetAbs := change.symlinkTarget
  touchesProtected := false
  touchesSubmodule := change.isSubmodule
  touchesGitmodules := change.touchesGitmodules
  -- not known from the patch
  fileSizeBytes := some 0

/-- What a patch is judged under. -/
structure Rules where
  default : ApprovalLevel
  requested : ApprovalLevel
  protectedPaths : List PathBuf
  config : Config

/-- The context of the files of a patch. -/
def contextOf (rules : Rules) (files : List FilePatch) : Context where
  fileChanges := files.map fun file => policyChange (PatchClassify.classifyFile file)
  requestedApprovalLevel := rules.requested
  protectedPaths := rules.protectedPaths
  config := rules.config

/-- What the policy decides of the files of a patch. -/
def decision (lowercase : Text → Text) (rules : Rules) (files : List FilePatch) : PolicyDecision :=
  evaluateChanges lowercase rules.default (contextOf rules files)

/-- The level that a patch is judged at. -/
def Rules.level (rules : Rules) : ApprovalLevel := effectiveLevel rules.requested rules.default

/-- Two files of patches that differ in the spelling of their paths at most. -/
structure SameFile (file other : FilePatch) : Prop where
  oldPath : Option.Rel Respelled file.oldPath other.oldPath
  newPath : Option.Rel Respelled file.newPath other.newPath
  others : { other with oldPath := file.oldPath, newPath := file.newPath } = file

/-! ## What looks at the whole path -/

/-- What a level says of the path of a change, as it is spelled. -/
def pathSeverity (rules : Rules) (path : PathBuf) : Severity :=
  let gitmodules := same path ⟨".gitmodules".toList⟩
  let guarded := rules.protectedPaths.any fun base => pathStartsWith path base
  match rules.level with
  | .untrusted => dueIf gitmodules .denied
  | .ask => dueIf gitmodules .denied ⊔ dueIf guarded .confirmed
  | .moderate => dueIf gitmodules .denied ⊔ dueIf guarded .downgraded
  | .trusted => dueIf gitmodules .denied ⊔ dueIf guarded .confirmed
  | .privileged allowedPaths => dueIf (!allowedPaths.any fun base => pathStartsWith path base) .denied

/-- The strictest thing that is said of the path of any file. -/
def spelledSeverity (rules : Rules) (files : List FilePatch) : Severity :=
  join (fun file => pathSeverity rules (PatchClassify.primaryPath file)) files

/-- The change as it is seen without its path's being `.gitmodules`. -/
def blind (change : PolicyEngine.FileChange) : PolicyEngine.FileChange :=
  { change with touchesGitmodules := false }

/-- The context of a patch without the paths that are protected. -/
def unguarded (rules : Rules) : Context := { contextOf rules [] with protectedPaths := [] }

section
variable (lowercase : Text → Text) (rules : Rules)

/-- What a level says of a change otherwise. -/
def unspelledSeverity (change : PolicyEngine.FileChange) : Severity :=
  commonSeverity (optionsOf rules.level) (blind change) ⊔
    match rules.level with
    | .privileged _ => ⊥
    | level => ownSeverity lowercase (unguarded rules) (blind change) level

/-- What a level says of all else: of the changes otherwise, of their number and of their
lines. -/
def otherSeverity (files : List FilePatch) : Severity :=
  join (unspelledSeverity lowercase rules) (contextOf rules files).fileChanges ⊔
    countSeverity (contextOf rules files) rules.level ⊔
      linesSeverity (contextOf rules files) rules.level

end

variable {lowercase : Text → Text} {rules : Rules} {file other : FilePatch}
  {files others : List FilePatch}

/-! ## One spelling -/

theorem commonSeverity_eq (options : CommonCheckOptions) (change : PolicyEngine.FileChange) :
    commonSeverity options change = dueIf (isDotEnv change.path ||
      !options.allowGitmodules && change.touchesGitmodules ||
      !options.allowPrivilegedSymlinks && isDangerousSymlink change) .denied := by
  unfold commonSeverity commonRestriction
  cases isDotEnv change.path <;> cases !options.allowGitmodules && change.touchesGitmodules <;>
    cases !options.allowPrivilegedSymlinks && isDangerousSymlink change <;> rfl

/-- What keeps a change from being simple besides its path. -/
def unfit (change : PolicyEngine.FileChange) : Bool :=
  change.isBinary || change.addsExecBit || change.touchesSubmodule || change.isSymlink ||
    !decide (change.linesAdded + change.linesDeleted ≤ 20)

theorem not_simple_eq (context : Context) (change : PolicyEngine.FileChange) :
    (!simple context change) = (unfit change || isProtectedPath change context ||
      change.touchesGitmodules || isDotEnv change.path) := by
  have guarded : isProtectedPath change (withChanges context [change]) =
      isProtectedPath change context := rfl
  unfold simple isSimpleChange unfit
  simp only [withChanges, List.all_cons, List.all_nil, Bool.and_true]
  rw [show isProtectedPath change { context with fileChanges := [change] } =
    isProtectedPath change context from guarded]
  simp only [List.length_cons, List.length_nil, Bool.not_and, Bool.not_not]
  ac_rfl

/-- What a level says of a change is what it says of its path and what it says otherwise. -/
theorem change_severity (change : PolicyEngine.FileChange)
    (named : change.touchesGitmodules = same change.path ⟨".gitmodules".toList⟩)
    (unmarked : change.touchesProtected = false) :
    commonSeverity (optionsOf rules.level) change ⊔
        ownSeverity lowercase (contextOf rules files) change rules.level =
      pathSeverity rules change.path ⊔ unspelledSeverity lowercase rules change := by
  have guarded : isProtectedPath change (contextOf rules files) =
      rules.protectedPaths.any fun base => pathStartsWith change.path base := by
    unfold isProtectedPath contextOf
    rw [unmarked]
    rfl
  have open_path : isProtectedPath (blind change) (unguarded rules) = false := by
    unfold isProtectedPath blind
    rw [unmarked]
    rfl
  -- nothing but `.gitmodules` is hidden
  have same_link : isDangerousSymlink (blind change) = isDangerousSymlink change := rfl
  have same_unfit : unfit (blind change) = unfit change := rfl
  have same_exec : (blind change).addsExecBit = change.addsExecBit := rfl
  have same_binary : (blind change).isBinary = change.isBinary := rfl
  have same_submodule : (blind change).touchesSubmodule = change.touchesSubmodule := rfl
  have same_listed : isWhitelistedBinary lowercase (blind change) (unguarded rules).config =
      isWhitelistedBinary lowercase change (contextOf rules files).config := rfl
  have seen : (blind change).touchesGitmodules = false := rfl
  have path_kept : (blind change).path = change.path := rfl
  unfold unspelledSeverity pathSeverity
  simp only [commonSeverity_eq, same_link, seen, path_kept]
  rw [named]
  generalize isDangerousSymlink change = link
  cases rules.level with
  | untrusted =>
    simp only [ownSeverity, optionsOf, CommonCheckOptions.standard]
    generalize isDotEnv change.path = env
    generalize same change.path _ = modules
    cases env <;> cases modules <;> cases link <;> rfl
  | ask =>
    simp only [ownSeverity, optionsOf, CommonCheckOptions.standard, not_simple_eq, guarded, open_path,
      same_unfit, seen, path_kept, named]
    generalize isDotEnv change.path = env
    generalize same change.path _ = modules
    generalize unfit change = rest
    generalize rules.protectedPaths.any _ = hit
    cases env <;> cases modules <;> cases link <;> cases rest <;> cases hit <;> rfl
  | moderate =>
    simp only [ownSeverity, optionsOf, CommonCheckOptions.standard, guarded, open_path, same_exec,
      same_binary, same_submodule]
    generalize isDotEnv change.path = env
    generalize same change.path _ = modules
    generalize rules.protectedPaths.any _ = hit
    cases env <;> cases modules <;> cases link <;> cases hit <;> cases change.addsExecBit <;>
      cases change.isBinary <;> cases change.touchesSubmodule <;> rfl
  | trusted =>
    simp only [ownSeverity, optionsOf, CommonCheckOptions.standard, guarded, open_path, same_exec,
      same_binary, same_listed]
    generalize isDotEnv change.path = env
    generalize same change.path _ = modules
    generalize rules.protectedPaths.any _ = hit
    generalize (change.isBinary && !isWhitelistedBinary _ _ _) = unlisted
    cases env <;> cases modules <;> cases link <;> cases hit <;> cases change.addsExecBit <;>
      cases unlisted <;> rfl
  | privileged allowedPaths =>
    simp only [ownSeverity, optionsOf]
    generalize isDotEnv change.path = env
    generalize allowedPaths.any _ = inside
    cases env <;> cases inside <;> rfl

/-- The verdict on a patch joins what is said of the paths with what is said otherwise. -/
theorem decision_verdict : verdict (decision lowercase rules files) =
    (otherSeverity lowercase rules files ⊔ spelledSeverity rules files).toVerdict := by
  have judged : verdict (decision lowercase rules files) =
      (severity lowercase (contextOf rules files) rules.level).toVerdict := evaluateChanges_verdict
  rw [judged, severity, growingSeverity, ← sup_assoc, ← join_sup]
  congr 1
  have split : join (fun change => commonSeverity (optionsOf rules.level) change ⊔
        ownSeverity lowercase (contextOf rules files) change rules.level)
        (contextOf rules files).fileChanges =
      spelledSeverity rules files ⊔
        join (unspelledSeverity lowercase rules) (contextOf rules files).fileChanges := by
    unfold spelledSeverity
    simp only [contextOf, join_map]
    rw [← join_sup]
    exact join_congr fun file _ => change_severity _ rfl rfl
  rw [split, otherSeverity]
  ac_rfl

/-! ## Two spellings -/

theorem isDotEnv_respelled {p q : PathBuf} (same : Respelled p q) : isDotEnv p = isDotEnv q := by
  unfold isDotEnv
  rw [same.same_fileName]

/-- What is said otherwise does not depend on the spelling. -/
theorem unspelledSeverity_respelled (change : PolicyEngine.FileChange) {path : PathBuf}
    (gitmodules : Bool) (same : Respelled change.path path) :
    unspelledSeverity lowercase rules
        { change with path := path, touchesGitmodules := gitmodules } =
      unspelledSeverity lowercase rules change := by
  have env : isDotEnv path = isDotEnv change.path := (isDotEnv_respelled same).symm
  have listed : isWhitelistedBinary lowercase
      (blind { change with path := path, touchesGitmodules := gitmodules }) (unguarded rules).config =
      isWhitelistedBinary lowercase (blind change) (unguarded rules).config := by
    unfold isWhitelistedBinary blind
    dsimp only
    rw [same.same_extension]
  have shared : ∀ options, commonSeverity options
      (blind { change with path := path, touchesGitmodules := gitmodules }) =
      commonSeverity options (blind change) := by
    intro options
    rw [commonSeverity_eq, commonSeverity_eq]
    change dueIf (isDotEnv path || _ || _) _ = _
    rw [env]
    rfl
  have simple_kept : (!simple (unguarded rules)
      (blind { change with path := path, touchesGitmodules := gitmodules })) =
      !simple (unguarded rules) (blind change) := by
    rw [not_simple_eq, not_simple_eq]
    change (_ || _ || _ || isDotEnv path) = _
    rw [env]
    rfl
  unfold unspelledSeverity
  rw [shared]
  congr 1
  cases rules.level with
  | untrusted => rfl
  | ask =>
    unfold ownSeverity
    rw [simple_kept]
  | moderate => rfl
  | trusted =>
    unfold ownSeverity
    rw [listed]
    rfl
  | privileged allowedPaths => rfl

theorem primaryPath_respelled (same : SameFile file other) :
    Respelled (PatchClassify.primaryPath file) (PatchClassify.primaryPath other) := by
  obtain ⟨olds, news, -⟩ := same
  unfold PatchClassify.primaryPath
  generalize file.newPath = new at news ⊢
  generalize other.newPath = new' at news ⊢
  generalize file.oldPath = old at olds ⊢
  generalize other.oldPath = old' at olds ⊢
  cases news with
  | some new => exact new
  | none =>
    cases olds with
    | some old => exact old
    | none => exact Respelled.refl _

theorem policyChange_respelled (same : SameFile file other) :
    policyChange (PatchClassify.classifyFile other) =
      { policyChange (PatchClassify.classifyFile file) with
        path := PatchClassify.primaryPath other
        touchesGitmodules := Path.same (PatchClassify.primaryPath other) ⟨".gitmodules".toList⟩ } := by
  obtain ⟨-, -, others⟩ := same
  rw [← others]
  rfl

theorem otherSeverity_respelled (respelled : List.Forall₂ SameFile files others) :
    otherSeverity lowercase rules others = otherSeverity lowercase rules files := by
  have spoken : join (unspelledSeverity lowercase rules) (contextOf rules others).fileChanges =
      join (unspelledSeverity lowercase rules) (contextOf rules files).fileChanges := by
    simp only [contextOf, join_map]
    induction respelled with
    | nil => rfl
    | @cons file other files others same rest ih =>
      rw [Joins.join_cons, Joins.join_cons, ih, policyChange_respelled same,
        unspelledSeverity_respelled _ _ (primaryPath_respelled same)]
  have counted : (contextOf rules others).fileChanges.length =
      (contextOf rules files).fileChanges.length := by
    simp only [contextOf, List.length_map, respelled.length_eq]
  have added : totalLinesChanged (contextOf rules others) =
      totalLinesChanged (contextOf rules files) := by
    have from_sum : ∀ sum : UInt64,
        (contextOf rules others).fileChanges.foldl
          (fun sum change => sum + (change.linesAdded + change.linesDeleted)) sum =
        (contextOf rules files).fileChanges.foldl
          (fun sum change => sum + (change.linesAdded + change.linesDeleted)) sum := by
      simp only [contextOf]
      clear spoken counted
      induction respelled with
      | nil => exact fun sum => rfl
      | cons same rest ih =>
        intro sum
        simp only [List.map_cons, List.foldl_cons]
        rw [ih, policyChange_respelled same]
    exact from_sum 0
  unfold otherSeverity countSeverity linesSeverity
  rw [spoken, counted, added]
  rfl

/-- The paths are said to be equally strict, or neither as strict as all else. -/
def Outweighed (lowercase : Text → Text) (rules : Rules) (files others : List FilePatch) : Prop :=
  spelledSeverity rules files = spelledSeverity rules others ∨
    spelledSeverity rules files ≤ otherSeverity lowercase rules files ∧
      spelledSeverity rules others ≤ otherSeverity lowercase rules files

/-- **Spellings.** Two spellings of a patch get the same verdict exactly if the checks
that look at whole paths are equally strict on both, or are outweighed on both. -/
theorem respelled_verdict_iff (lowercase : Text → Text) (rules : Rules) (files others : List FilePatch)
    (respelled : List.Forall₂ SameFile files others) :
    verdict (decision lowercase rules files) = verdict (decision lowercase rules others) ↔
      Outweighed lowercase rules files others := by
  rw [decision_verdict, decision_verdict, otherSeverity_respelled respelled]
  exact Severity.toVerdict_injective.eq_iff.trans sup_left_inj_iff

/-- Nothing but a `.` in front of a path makes a difference. -/
theorem outweighed_of_dots (respelled : List.Forall₂ SameFile files others)
    (dots : List.Forall₂ (fun file other => dotted (PatchClassify.primaryPath file) =
      dotted (PatchClassify.primaryPath other)) files others) :
    Outweighed lowercase rules files others := by
  refine .inl ?_
  unfold spelledSeverity
  induction respelled with
  | nil => rfl
  | cons same rest ih =>
    obtain ⟨dot, dots⟩ := List.forall₂_cons.mp dots
    have equal := (primaryPath_respelled same).same_components dot
    rw [Joins.join_cons, Joins.join_cons, ih dots]
    congr 1
    unfold pathSeverity Path.same pathStartsWith
    rw [equal]

/-! ## A `.` in front -/

/-- A patch that changes one line of a file. -/
def lineChange (path : String) : Text :=
  "--- a/".toList ++ path.toList ++ "\n+++ b/".toList ++ path.toList ++
    "\n@@ -1 +1 @@\n-old\n+new\n".toList

/-- The file of that patch. -/
def lineChanged (path : String) : FilePatch where
  oldPath := some ⟨path.toList⟩
  newPath := some ⟨path.toList⟩
  hunks := [⟨1, 1, 1, 1, [.remove "old".toList, .add "new".toList], false⟩]
  isNewFile := false
  isDeletedFile := false
  oldMode := none
  newMode := none
  addsExecBit := false
  isBinary := false
  noTrailingNewline := false

/-- The defaults of the configuration, at the level `Moderate`. -/
def moderateRules : Rules where
  default := .moderate
  requested := .moderate
  protectedPaths := [⟨".git".toList⟩, ⟨"Cargo.toml".toList⟩, ⟨"package.json".toList⟩, ⟨".env".toList⟩]
  config := .default

theorem lineChanged_same {path other : String} (same : Respelled ⟨path.toList⟩ ⟨other.toList⟩) :
    SameFile (lineChanged path) (lineChanged other) := ⟨.some same, .some same, rfl⟩

/-- A `.` in front of `.gitmodules` turns a denial into a silent permission. -/
theorem dotted_gitmodules_allowed :
    ((PatchParser.fromDiff (lineChange ".gitmodules")).toOption.map (·.files)) =
        some [lineChanged ".gitmodules"] ∧
    ((PatchParser.fromDiff (lineChange "./.gitmodules")).toOption.map (·.files)) =
        some [lineChanged "./.gitmodules"] ∧
    SameFile (lineChanged ".gitmodules") (lineChanged "./.gitmodules") ∧
    verdict (decision id moderateRules [lineChanged ".gitmodules"]) = ⟨false, false, none⟩ ∧
    verdict (decision id moderateRules [lineChanged "./.gitmodules"]) = ⟨true, false, none⟩ := by
  refine ⟨?_, ?_, lineChanged_same ⟨by decide, by decide⟩, ?_, ?_⟩
  · decide +kernel
  · decide +kernel
  · decide +kernel
  · decide +kernel

/-- A slash or a `.` further on does not matter. -/
theorem slashes_same_verdict :
    verdict (decision id moderateRules [lineChanged "src/main.rs"]) =
      verdict (decision id moderateRules [lineChanged "src//./main.rs"]) := by
  have respelled := @lineChanged_same "src/main.rs" "src//./main.rs"
    ⟨by decide, by decide⟩
  refine (respelled_verdict_iff id moderateRules _ _ (.cons respelled .nil)).mpr (.inl ?_)
  decide +kernel

end PolicySpelling

end Devit
