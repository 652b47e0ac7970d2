import Mathlib.Algebra.Order.BigOperators.Group.List
import Mathlib.Algebra.Order.Group.Nat
import Devit.PatchPreviews
import Devit.PatchReplay
import Devit.PolicyLevels

/-! A preview recommends an approval level, and the policy engine judges the patch at that
level when it is applied. The two have rules of their own: the level recommended for a
harmless patch is one that is always asked about, and the files that are denied at every
level are not among those the preview warns of. -/
namespace Devit
open Text Path

namespace Recommendations
open PatchApply PolicyEngine PatchPreviews PolicyLevels PolicyOrder PolicyDecisions
open ApprovalLevel Joins

variable {services : Services} {settings : PolicySettings} {w : World}
  {changes : List FileChange} {change : FileChange} {preview : PatchPreview}
  {patchContent : Text}

/-! ## What the policy engine says -/

theorem allow_iff {s : Severity} : s.toVerdict.allow = true ↔ s ≠ .denied := by
  cases s <;> decide

theorem silent_iff {s : Severity} :
    s.toVerdict.allow = true ∧ s.toVerdict.requiresConfirmation = false ↔ s = ⊥ := by
  cases s <;> decide

section
variable {lowercase : Text → Text} {default level : ApprovalLevel} {context : Context}

/-- What is asked for below `Privileged` is judged below `Privileged`. -/
theorem effectiveLevel_unprivileged (unprivileged : ∀ paths, level ≠ .privileged paths)
    (paths : List PathBuf) : effectiveLevel level default ≠ .privileged paths := by
  cases level with
  | privileged own => exact absurd rfl (unprivileged own)
  | _ => cases default <;> simp [effectiveLevel, securityRank]

theorem severity_unprivileged (unprivileged : ∀ paths, level ≠ .privileged paths) :
    severity lowercase context level =
      dueIf (context.fileChanges.any fun change => (commonRestriction .standard change).isSome)
        .denied ⊔ restSeverity lowercase context level := by
  have options : optionsOf level = .standard := by
    cases level with
    | privileged paths => exact absurd rfl (unprivileged paths)
    | _ => rfl
  rw [severity_eq, options]
  unfold commonSeverity
  rw [join_dueIf]

theorem none_restricted_iff :
    (context.fileChanges.any fun change => (commonRestriction .standard change).isSome) = false ↔
      ∀ change ∈ context.fileChanges, commonRestriction .standard change = none := by
  rw [List.any_eq_false]
  refine forall₂_congr fun change _ => ?_
  rw [Bool.not_eq_true, Option.isSome_eq_false_iff, Option.isNone_iff_eq_none]

/-- Below `Privileged`, what no level permits is all that is denied. -/
theorem allowed_iff (unprivileged : ∀ paths, level ≠ .privileged paths) :
    (severity lowercase context level).toVerdict.allow = true ↔
      ∀ change ∈ context.fileChanges, commonRestriction .standard change = none := by
  have mild := @restSeverity_le lowercase level context unprivileged
  rw [allow_iff, severity_unprivileged unprivileged, ← none_restricted_iff]
  cases context.fileChanges.any fun change => (commonRestriction .standard change).isSome with
  | true =>
    refine iff_of_false (fun other => other ?_) (by decide)
    apply le_antisymm _ le_sup_left
    exact sup_le le_rfl (mild.trans (by decide))
  | false =>
    refine iff_of_true (fun denied => ?_) rfl
    rw [dueIf_false, bot_sup_eq] at denied
    rw [denied] at mild
    exact absurd mild (by decide)

theorem unasked_iff (unprivileged : ∀ paths, level ≠ .privileged paths) :
    severity lowercase context level = ⊥ ↔
      (∀ change ∈ context.fileChanges, commonRestriction .standard change = none) ∧
        Quiet lowercase context level := by
  rw [severity_unprivileged unprivileged, sup_eq_bot_iff, dueIf_eq_bot_iff (by decide),
    none_restricted_iff]
  rfl

theorem quiet_trusted_iff : Quiet lowercase context .trusted ↔
    ∀ change ∈ context.fileChanges, change.addsExecBit = false ∧
      (change.isBinary = true → isWhitelistedBinary lowercase change context.config = true) ∧
        isProtectedPath change context = false := by
  unfold Quiet restSeverity countSeverity linesSeverity ownSeverity
  rw [sup_eq_bot_iff, sup_eq_bot_iff, join_sup, join_sup, join_dueIf, join_dueIf, join_dueIf,
    sup_eq_bot_iff, sup_eq_bot_iff, dueIf_eq_bot_iff (by decide), dueIf_eq_bot_iff (by decide),
    dueIf_eq_bot_iff (by decide), List.any_eq_false, List.any_eq_false, List.any_eq_false]
  constructor
  · rintro ⟨⟨⟨⟨exec, binary⟩, guarded⟩, -⟩, -⟩
    intro change member
    refine ⟨by simpa using exec change member, fun isBinary => ?_,
      by simpa using guarded change member⟩
    have listed := binary change member
    simpa [isBinary] using listed
  · intro all
    refine ⟨⟨⟨⟨fun change member => ?_, fun change member => ?_⟩, fun change member => ?_⟩, rfl⟩,
      rfl⟩
    · simp [(all change member).1]
    · have listed := (all change member).2.1
      cases isBinary : change.isBinary with
      | false => simp
      | true => simp [listed isBinary]
    · simp [(all change member).2.2]

end

/-! ## The changes of a patch, as they are judged -/

/-- A classified change is no link and no submodule. -/
theorem classified_plain (classified : PatchClassify.classifyChanges patchContent = .ok changes) :
    ∀ change ∈ changes, change.isSymlink = false ∧ change.isSubmodule = false := by
  obtain ⟨patch, -, made⟩ := Except.bind_eq_ok classified
  cases made
  intro change member
  obtain ⟨file, -, rfl⟩ := List.mem_map.mp member
  exact ⟨rfl, rfl⟩

/-- What no level permits, of a change that is no link. -/
theorem restriction_none_iff (plain : change.isSymlink = false) :
    commonRestriction .standard (policyChange change) = none ↔
      isDotEnv change.filePath = false ∧ change.touchesGitmodules = false := by
  have harmless : isDangerousSymlink (policyChange change) = false := by
    rw [isDangerousSymlink, policyChange, plain]
    rfl
  rw [commonRestriction_none]
  constructor
  · rintro ⟨env, modules, -⟩
    exact ⟨env, modules rfl⟩
  · rintro ⟨env, modules⟩
    exact ⟨env, fun _ => modules, fun _ => harmless⟩

theorem protected_policyChange {level : ApprovalLevel} :
    isProtectedPath (policyChange change) (policyContext settings changes level) = false ↔
      ∀ rule ∈ settings.protectedPaths, pathStartsWith change.filePath rule = false := by
  rw [isProtectedPath_false]
  exact and_iff_right rfl

theorem lines_policyChange (counted : lineCount change < 2 ^ 64) :
    ((policyChange change).linesAdded + (policyChange change).linesDeleted).toNat =
      lineCount change := by
  unfold policyChange
  rw [← UInt64.ofNat_add]
  exact UInt64.toNat_ofNat_of_lt counted

theorem sum_lines (sum : UInt64) :
    (changes.map policyChange).foldl
      (fun sum change => sum + (change.linesAdded + change.linesDeleted)) sum =
        sum + .ofNat (changes.map lineCount).sum := by
  induction changes generalizing sum with
  | nil => simp
  | cons change changes ih =>
    rw [List.map_cons, List.foldl_cons, ih, List.map_cons, List.sum_cons, UInt64.ofNat_add]
    unfold policyChange lineCount
    rw [UInt64.ofNat_add]
    ac_rfl

theorem totalLines_eq {level : ApprovalLevel} (counted : (changes.map lineCount).sum < 2 ^ 64) :
    (totalLinesChanged (policyContext settings changes level)).toNat =
      (changes.map lineCount).sum := by
  unfold totalLinesChanged policyContext
  rw [sum_lines, UInt64.zero_add]
  exact UInt64.toNat_ofNat_of_lt counted

/-- The whitelist of small binary files, for a file whose size is not known. -/
theorem whitelisted_iff {lowercase : Text → Text} (binary : change.isBinary = true) :
    isWhitelistedBinary lowercase (policyChange change) settings.config = true ↔
      ∃ ext, (extension change.filePath).map lowercase = some ext ∧
        ext ∈ settings.config.smallBinaryWhitelist := by
  have unread : (policyChange change).isBinary = true := binary
  have path : extension (policyChange change).path = extension change.filePath := rfl
  rw [isWhitelistedBinary, unread, if_neg (by decide), path]
  cases (extension change.filePath).map lowercase with
  | none => simp
  | some ext => simp [policyChange]

/-- A level asks nothing about these changes, as their preview shows them: no path is warned
of, and beyond that every level has limits of its own. -/
def Unasked (lowercase : Text → Text) (settings : PolicySettings) (changes : List FileChange)
    (preview : PatchPreview) : ApprovalLevel → Prop
  | .untrusted => False
  | .ask => changes.length ≤ 2 ∧ preview.affectsBinaries = false ∧
      ∀ change ∈ changes, change.addsExecBit = false ∧ lineCount change ≤ 20
  | .moderate => changes.length ≤ settings.config.maxFilesModerate.toNat ∧
      preview.estimatedLineChanges ≤ settings.config.maxLinesModerate.toNat ∧
      preview.affectsBinaries = false ∧ ∀ change ∈ changes, change.addsExecBit = false
  | .trusted => ∀ change ∈ changes, change.addsExecBit = false ∧
      (change.isBinary = true → ∃ ext, (extension change.filePath).map lowercase = some ext ∧
        ext ∈ settings.config.smallBinaryWhitelist)
  | .privileged _ => False

theorem simple_iff {level : ApprovalLevel} (counted : lineCount change < 2 ^ 64)
    (plain : change.isSymlink = false ∧ change.isSubmodule = false)
    (permitted : isDotEnv change.filePath = false ∧ change.touchesGitmodules = false) :
    simple (policyContext settings changes level) (policyChange change) = true ↔
      (∀ rule ∈ settings.protectedPaths, pathStartsWith change.filePath rule = false) ∧
        change.isBinary = false ∧ change.addsExecBit = false ∧ lineCount change ≤ 20 := by
  have short : (policyChange change).linesAdded + (policyChange change).linesDeleted ≤ 20 ↔
      lineCount change ≤ 20 := by
    rw [UInt64.le_iff_toNat_le, lines_policyChange counted]
    rfl
  have unprotected := @protected_policyChange settings changes change level
  obtain ⟨link, submodule⟩ := plain
  obtain ⟨env, modules⟩ := permitted
  have fields : (policyChange change).touchesSubmodule = false ∧
      (policyChange change).touchesGitmodules = false ∧ (policyChange change).isSymlink = false ∧
        isDotEnv (policyChange change).path = false := ⟨submodule, modules, link, env⟩
  rw [← unprotected, ← short]
  simp only [simple, isSimpleChange, withChanges, List.all_cons, List.all_nil, Bool.and_true,
    Bool.and_eq_true, Bool.not_eq_true', decide_eq_true_eq, List.length_singleton, fields]
  constructor
  · rintro ⟨-, ⟨⟨⟨⟨⟨⟨binary, exec⟩, guarded⟩, -⟩, -⟩, -⟩, -⟩, lines⟩
    exact ⟨guarded, binary, exec, lines⟩
  · rintro ⟨guarded, binary, exec, lines⟩
    exact ⟨rfl, ⟨⟨⟨⟨⟨⟨binary, exec⟩, guarded⟩, trivial⟩, trivial⟩, trivial⟩, trivial⟩, lines⟩

theorem no_binaries_iff (shows : Shows services settings w changes preview) :
    preview.affectsBinaries = false ↔ ∀ change ∈ changes, change.isBinary = false := by
  rw [shows.binaries, List.any_eq_false]
  exact forall₂_congr fun change _ => by rw [Bool.not_eq_true]

theorem quiet_iff {lowercase : Text → Text} {requested level : ApprovalLevel}
    (shows : Shows services settings w changes preview)
    (counted : preview.estimatedLineChanges < 2 ^ 64)
    (plain : ∀ change ∈ changes, change.isSymlink = false ∧ change.isSubmodule = false)
    (permitted : ∀ change ∈ changes,
      isDotEnv change.filePath = false ∧ change.touchesGitmodules = false)
    (paths : ∀ change ∈ changes, checkPaths services w change = .ok ())
    (unprivileged : ∀ paths, level ≠ .privileged paths) :
    Quiet lowercase (policyContext settings changes requested) level ↔
      preview.policyWarnings = [] ∧ Unasked lowercase settings changes preview level := by
  have guarded : preview.policyWarnings = [] ↔ ∀ change ∈ changes,
      ∀ rule ∈ settings.protectedPaths, pathStartsWith change.filePath rule = false := by
    rw [shows.silent]
    exact and_iff_right paths
  have each : ∀ change ∈ changes, lineCount change < 2 ^ 64 := by
    intro change member
    rw [shows.lines] at counted
    exact (List.le_sum_of_mem (List.mem_map_of_mem member)).trans_lt counted
  have size : (policyContext settings changes requested).fileChanges.length = changes.length :=
    List.length_map _
  have judged {p : PolicyEngine.FileChange → Prop} {q : FileChange → Prop}
      (same : ∀ change ∈ changes, p (policyChange change) ↔ q change) :
      (∀ change ∈ (policyContext settings changes requested).fileChanges, p change) ↔
        ∀ change ∈ changes, q change := by
    rw [policyContext, List.forall_mem_map]
    exact forall₂_congr same
  have split {p q : FileChange → Prop} : (∀ change ∈ changes, p change ∧ q change) ↔
      (∀ change ∈ changes, p change) ∧ ∀ change ∈ changes, q change := forall₂_and
  rw [guarded]
  cases level with
  | untrusted => exact iff_of_false not_quiet_untrusted fun both => both.2
  | ask =>
    rw [quiet_ask_iff, size, judged fun change member =>
      simple_iff (each change member) (plain change member) (permitted change member), split, split,
      Unasked, no_binaries_iff shows]
    exact and_left_comm
  | moderate =>
    rw [quiet_moderate_iff, size, UInt64.le_iff_toNat_le, totalLines_eq (shows.lines ▸ counted),
      ← shows.lines, judged fun change member => and_congr protected_policyChange Iff.rfl, split,
      Unasked, no_binaries_iff shows]
    have rest : (∀ change ∈ changes, (policyChange change).addsExecBit = false ∧
        (policyChange change).isBinary = false ∧ (policyChange change).touchesSubmodule = false) ↔
        (∀ change ∈ changes, change.isBinary = false) ∧
          ∀ change ∈ changes, change.addsExecBit = false := by
      rw [← split]
      exact forall₂_congr fun change member => ⟨fun ⟨exec, binary, _⟩ => ⟨binary, exec⟩,
        fun ⟨binary, exec⟩ => ⟨exec, binary, (plain change member).2⟩⟩
    rw [rest]
    exact ⟨fun ⟨files, lines, guards, others⟩ => ⟨guards, files, lines, others⟩,
      fun ⟨guards, files, lines, others⟩ => ⟨files, lines, guards, others⟩⟩
  | trusted =>
    rw [quiet_trusted_iff, judged fun change member => and_congr Iff.rfl <|
      and_congr (forall_congr' fun binary => whitelisted_iff binary) protected_policyChange]
    rw [Unasked, ← split]
    exact forall₂_congr fun change _ => ⟨fun ⟨exec, listed, guard⟩ => ⟨guard, exec, listed⟩,
      fun ⟨guard, exec, listed⟩ => ⟨exec, listed, guard⟩⟩
  | privileged paths => exact absurd rfl (unprivileged paths)

/-! ## Applying what was previewed -/

theorem checked_iff : changes.forM (checkPaths services w) = .ok () ↔
    ∀ change ∈ changes, checkPaths services w change = .ok () := by
  induction changes with
  | nil => exact iff_of_true rfl (List.forall_mem_nil _)
  | cons change changes ih =>
    rw [List.forall_mem_cons, ← ih]
    change (checkPaths services w change >>= fun _ => changes.forM (checkPaths services w)) =
      .ok () ↔ _
    cases checkPaths services w change with
    | error e => exact iff_of_false (by simp [bind, Except.bind]) (by simp)
    | ok => exact ⟨fun rest => ⟨rfl, rest⟩, fun both => both.2⟩

theorem heedPolicy_ok_iff {level : ApprovalLevel} {decision : PolicyDecision} :
    (∃ said, heedPolicy services level decision = .ok said) ↔
      decision.allow = true ∧ (level = .ask ∨ decision.requiresConfirmation = false) := by
  unfold heedPolicy
  cases decision.allow with
  | false => simp
  | true =>
    cases decision.requiresConfirmation with
    | false => simp
    | true =>
      by_cases ask : level = .ask
      · simp [ask]
      · simp [ask]

/-- A patch gets as far as the patcher if its paths are safe, none of its files is denied at
every level, and nothing is asked or `Ask` was asked for. -/
theorem judge_ok_iff {request : PatchRequest}
    (classified : PatchClassify.classifyChanges request.patchContent = .ok changes)
    (some_change : changes ≠ [])
    (unprivileged : ∀ paths, request.approvalLevel ≠ .privileged paths) :
    (∃ approved, judge (withPolicy services settings) w request = .ok approved) ↔
      (∀ change ∈ changes, checkPaths services w change = .ok ()) ∧
      (∀ change ∈ changes, commonRestriction .standard (policyChange change) = none) ∧
      (request.approvalLevel = .ask ∨
        Quiet services.lowercase (policyContext settings changes request.approvalLevel)
          (effectiveLevel request.approvalLevel settings.defaultLevel)) := by
  let context := policyContext settings changes request.approvalLevel
  let level := effectiveLevel request.approvalLevel settings.defaultLevel
  let decision := evaluateChanges services.lowercase settings.defaultLevel context
  have below := @effectiveLevel_unprivileged settings.defaultLevel _ unprivileged
  have judged : verdict decision = (severity services.lowercase context level).toVerdict :=
    evaluateChanges_verdict
  have allows : decision.allow = true ↔
      ∀ change ∈ changes, commonRestriction .standard (policyChange change) = none := by
    have read : decision.allow = (severity services.lowercase context level).toVerdict.allow :=
      congrArg Verdict.allow judged
    rw [read, allowed_iff below]
    exact List.forall_mem_map
  have asks : decision.allow = true ∧ decision.requiresConfirmation = false ↔
      decision.allow = true ∧ Quiet services.lowercase context level := by
    have silent := @silent_iff (severity services.lowercase context level)
    rw [← judged] at silent
    refine silent.trans ?_
    rw [unasked_iff below, allows]
    exact and_congr_left' List.forall_mem_map
  have heeded : (∃ said, heedPolicy services request.approvalLevel decision = .ok said) ↔
      (∀ change ∈ changes, commonRestriction .standard (policyChange change) = none) ∧
        (request.approvalLevel = .ask ∨ Quiet services.lowercase context level) := by
    rw [heedPolicy_ok_iff, and_or_left, asks, ← and_or_left, allows]
  have steps : judge (withPolicy services settings) w request =
      (changes.forM (checkPaths services w) >>= fun _ =>
        heedPolicy services request.approvalLevel decision >>= fun said => .ok {
          affectedFiles := uniquePaths changes
          warnings := said.1
          infoMessages := analysisMessages changes ++ said.2 ++
            ["Applying patch with atomic file operations".toList] }) := by
    rw [judge, classified]
    simp only [bind, Except.bind, if_neg some_change]
    rfl
  rw [steps, ← heeded, ← checked_iff]
  cases changes.forM (checkPaths services w) with
  | error e => exact iff_of_false (by simp [bind, Except.bind]) (by simp)
  | ok =>
    cases heedPolicy services request.approvalLevel decision with
    | error e => exact iff_of_false (by simp [bind, Except.bind]) (by simp)
    | ok said => exact iff_of_true ⟨_, rfl⟩ ⟨rfl, said, rfl⟩

theorem recommended_unprivileged (affectsProtected affectsBinaries : Bool) (lines files : Nat)
    (paths : List PathBuf) :
    recommendedApproval affectsProtected affectsBinaries lines files ≠ .privileged paths := by
  unfold recommendedApproval
  cases riskOfScore (riskScore affectsProtected affectsBinaries lines files) <;>
    simp [approvalFor]

/-- A patch is found harmless if nothing in it is noticed and it is short. -/
theorem recommended_harmless_iff {affectsProtected affectsBinaries : Bool} {lines files : Nat} :
    recommendedApproval affectsProtected affectsBinaries lines files = .untrusted ↔
      affectsProtected = false ∧ affectsBinaries = false ∧ lines ≤ 400 ∧ files ≤ 10 := by
  have low_iff (score : Nat) : approvalFor (riskOfScore score) = .untrusted ↔ score = 0 := by
    match score with
    | 0 | 1 | 2 | _ + 3 => simp [riskOfScore, approvalFor]
  rw [recommendedApproval, low_iff]
  unfold riskScore
  by_cases huge : lines > 1000 ∨ files > 25
  · simp only [if_pos huge]
    exact iff_of_false (by decide) (by omega)
  by_cases long : lines > 400 ∨ files > 10
  · simp only [if_neg huge, if_pos long]
    exact iff_of_false (by omega) (by omega)
  · have short : lines ≤ 400 ∧ files ≤ 10 := by omega
    simp only [if_neg huge, if_neg long, short, and_true]
    cases affectsProtected <;> cases affectsBinaries <;> decide

/-- **Recommended and enough.** The level that a preview recommends lets the patch through to
the patcher exactly if its paths are safe, it touches no `.env` file and no `.gitmodules`, and
the level is `Ask`, or the preview warns of no path and the level the policy engine takes for
it asks nothing. The level for a harmless patch is `Untrusted`, and that is never enough. -/
theorem recommendation_enough_iff {validate : Text → World → DevItResult Bool}
    {base key : Option Text} {dryRun : Bool}
    (shown : (patchPreview services settings validate patchContent base w).1 = .ok preview)
    (classified : PatchClassify.classifyChanges patchContent = .ok changes)
    (counted : preview.estimatedLineChanges < 2 ^ 64) :
    (∃ approved, judge (withPolicy services settings)
        (patchPreview services settings validate patchContent base w).2
        ⟨patchContent, preview.recommendedApproval, dryRun, key⟩ = .ok approved) ↔
      (∀ change ∈ changes, checkPaths services w change = .ok ()) ∧
      (∀ change ∈ changes, isDotEnv change.filePath = false ∧ change.touchesGitmodules = false) ∧
      (preview.recommendedApproval = .ask ∨ preview.policyWarnings = [] ∧
        Unasked services.lowercase settings changes preview
          (effectiveLevel preview.recommendedApproval settings.defaultLevel)) := by
  obtain ⟨analyzed, same_disk, same_paths⟩ := patchPreview_analyzes shown
  have shows := analyze_shows classified analyzed
  have plain := classified_plain classified
  have unprivileged : ∀ paths, preview.recommendedApproval ≠ .privileged paths := by
    rw [shows.level]
    exact recommended_unprivileged _ _ _ _
  have checks : ∀ change, checkPaths services
      (patchPreview services settings validate patchContent base w).2 change =
        checkPaths services w change := by
    intro change
    rw [checkPaths, checkPaths, same_disk, same_paths]
  rw [judge_ok_iff classified shows.some_change unprivileged]
  simp only [checks]
  refine and_congr_right fun paths => ?_
  have permits : (∀ change ∈ changes, commonRestriction .standard (policyChange change) = none) ↔
      ∀ change ∈ changes, isDotEnv change.filePath = false ∧ change.touchesGitmodules = false :=
    forall₂_congr fun change member => restriction_none_iff (plain change member).1
  rw [permits]
  refine and_congr_right fun permitted => or_congr_right ?_
  exact quiet_iff shows counted plain permitted paths (effectiveLevel_unprivileged unprivileged)

/-- **Nothing noticed.** A patch that the preview finds harmless is let through at `Moderate`,
where the policy engine reaches that level, exactly if it touches no `.env` file and no
`.gitmodules`, makes nothing executable, and has no more sections than the engine's limit of
files: the preview looks for none of these. -/
theorem harmless_accepted_iff {validate : Text → World → DevItResult Bool}
    {base key : Option Text} {dryRun : Bool}
    (shown : (patchPreview services settings validate patchContent base w).1 = .ok preview)
    (classified : PatchClassify.classifyChanges patchContent = .ok changes)
    (harmless : preview.recommendedApproval = .untrusted) (limits : settings.config = .default)
    (reached : ApprovalLevel.moderate.securityRank ≤ settings.defaultLevel.securityRank) :
    (∃ approved, judge (withPolicy services settings)
        (patchPreview services settings validate patchContent base w).2
        ⟨patchContent, .moderate, dryRun, key⟩ = .ok approved) ↔
      changes.length ≤ 10 ∧ ∀ change ∈ changes, isDotEnv change.filePath = false ∧
        change.touchesGitmodules = false ∧ change.addsExecBit = false := by
  obtain ⟨analyzed, same_disk, same_paths⟩ := patchPreview_analyzes shown
  have shows := analyze_shows classified analyzed
  have plain := classified_plain classified
  obtain ⟨unguarded, textual, short, -⟩ :=
    recommended_harmless_iff.mp (shows.level.symm.trans harmless)
  have silent := (shows.guarded.mp unguarded).1
  have paths := (shows.silent.mp silent).1
  have moderate : ∀ paths, ApprovalLevel.moderate ≠ .privileged paths := by simp
  have checks : ∀ change ∈ changes, checkPaths services
      (patchPreview services settings validate patchContent base w).2 change = .ok () := by
    intro change member
    rw [← paths change member, checkPaths, checkPaths, same_disk, same_paths]
  rw [judge_ok_iff classified shows.some_change moderate, effectiveLevel_reached moderate reached]
  have permits : (∀ change ∈ changes, commonRestriction .standard (policyChange change) = none) ↔
      ∀ change ∈ changes, isDotEnv change.filePath = false ∧ change.touchesGitmodules = false :=
    forall₂_congr fun change member => restriction_none_iff (plain change member).1
  have limits_are : settings.config.maxFilesModerate.toNat = 10 ∧
      settings.config.maxLinesModerate.toNat = 400 := by
    rw [limits]
    exact ⟨rfl, rfl⟩
  rw [permits]
  constructor
  · rintro ⟨-, permitted, ask | quiet⟩
    · cases ask
    · obtain ⟨-, files, -, -, exec⟩ :=
        (quiet_iff shows (by omega) plain permitted paths moderate).mp quiet
      rw [limits_are.1] at files
      exact ⟨files, fun change member => ⟨(permitted change member).1, (permitted change member).2,
        exec change member⟩⟩
  · rintro ⟨files, all⟩
    have permitted : ∀ change ∈ changes,
        isDotEnv change.filePath = false ∧ change.touchesGitmodules = false :=
      fun change member => ⟨(all change member).1, (all change member).2.1⟩
    refine ⟨checks, permitted, .inr ?_⟩
    apply (quiet_iff shows (by omega) plain permitted paths moderate).mpr
    refine ⟨silent, ?_, ?_, textual, fun change member => (all change member).2.2⟩
    · rw [limits_are.1]
      exact files
    · rw [limits_are.2]
      exact short

/-- The text of the note, its settings and its preview: a new file of one line. -/
def notePatch : Text := (PatchReplay.noteRequest false).patchContent

def noteSettings : PolicySettings := ⟨.trusted, [⟨"Cargo.lock".toList⟩], .default⟩

def noteWorld : World := ⟨WorkspaceRoots.sandboxEngine, WorkspaceRoots.sandboxDisk⟩

def notePreview : PatchPreview where
  affectedFiles := [⟨"note".toList⟩]
  estimatedLineChanges := 1
  affectsProtected := false
  affectsBinaries := false
  policyWarnings := []
  recommendedApproval := .untrusted
  permissionChanges := []

def noteChange : FileChange where
  filePath := ⟨"note".toList⟩
  changeType := .created
  linesAdded := 1
  linesRemoved := 0
  isBinary := false
  addsExecBit := false
  isSymlink := false
  symlinkTarget := none
  isSubmodule := false
  touchesGitmodules := false

theorem note_previewed : (patchPreview PatchReplay.noteServices noteSettings (fun _ _ => .ok true)
      notePatch none noteWorld).1 = .ok notePreview ∧
    PatchClassify.classifyChanges notePatch = .ok [noteChange] := by
  decide +kernel

/-- The note is harmless, and the level recommended for it refuses it. -/
theorem note_refused :
    ¬ ∃ approved, judge (withPolicy PatchReplay.noteServices noteSettings)
      (patchPreview PatchReplay.noteServices noteSettings (fun _ _ => .ok true) notePatch none
        noteWorld).2 ⟨notePatch, notePreview.recommendedApproval, false, none⟩ = .ok approved := by
  rw [recommendation_enough_iff note_previewed.1 note_previewed.2 (by decide)]
  rintro ⟨-, -, ask | ⟨-, unasked⟩⟩
  · exact absurd ask (by decide)
  · exact unasked

/-- It is let through two levels above. -/
theorem note_accepted :
    ∃ approved, judge (withPolicy PatchReplay.noteServices noteSettings)
      (patchPreview PatchReplay.noteServices noteSettings (fun _ _ => .ok true) notePatch none
        noteWorld).2 ⟨notePatch, .moderate, false, none⟩ = .ok approved := by
  apply (harmless_accepted_iff note_previewed.1 note_previewed.2 rfl rfl (by decide)).mpr
  exact ⟨by decide, List.forall_mem_singleton.mpr (by decide)⟩

end Recommendations

end Devit
