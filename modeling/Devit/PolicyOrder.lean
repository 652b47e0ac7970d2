import Devit.Library.Joins
import Devit.PolicyDecisions

/-! Judging a list of changes is a join. What a level says of the whole list is the
strictest of what it says of each change, of their number and of their lines. So the
order of the changes does not matter, and one more change only makes the decision
stricter; the one thing that can shrink is the sum of the lines, which has 64 bits. -/
namespace Devit
open Text Path

namespace PolicyOrder
open PolicyEngine PolicyDecisions ApprovalLevel Joins

/-- What a decision is, without its reason. -/
structure Verdict where
  allow : Bool
  requiresConfirmation : Bool
  downgradedTo : Option ApprovalLevel
  deriving DecidableEq, Repr

def verdict (decision : PolicyDecision) : Verdict :=
  ⟨decision.allow, decision.requiresConfirmation, decision.downgradedTo⟩

/-- The context with another list of changes. -/
def withChanges (context : Context) (changes : List PolicyEngine.FileChange) : Context :=
  { context with fileChanges := changes }

/-! ## Severities -/

/-- How strict a decision is. -/
inductive Severity where
  | allowed
  | confirmed
  | downgraded
  | denied
  deriving DecidableEq, Repr

namespace Severity

def rank : Severity → Nat
  | .allowed => 0
  | .confirmed => 1
  | .downgraded => 2
  | .denied => 3

theorem rank_injective : Function.Injective rank := by
  intro a b same
  cases a <;> cases b <;> first | rfl | cases same

instance : LinearOrder Severity := LinearOrder.lift' rank rank_injective

instance : OrderBot Severity where
  bot := .allowed
  bot_le a := Nat.zero_le a.rank

/-- The verdict of that severity. -/
def toVerdict : Severity → Verdict
  | .allowed => ⟨true, false, none⟩
  | .confirmed => ⟨true, true, none⟩
  | .downgraded => ⟨true, true, some .ask⟩
  | .denied => ⟨false, false, none⟩

theorem toVerdict_injective : Function.Injective toVerdict := by
  intro a b same
  cases a <;> cases b <;> first | rfl | cases same

end Severity

section
variable (lowercase : Text → Text) (context : Context)

/-- What the restrictions that all levels share say of a change. -/
def commonSeverity (options : CommonCheckOptions) (change : PolicyEngine.FileChange) : Severity :=
  dueIf (commonRestriction options change).isSome .denied

/-- Whether a change alone is simple. -/
def simple (change : PolicyEngine.FileChange) : Bool :=
  isSimpleChange (withChanges context [change])

/-- What a level says of one change, beyond the shared restrictions. -/
def ownSeverity (change : PolicyEngine.FileChange) : ApprovalLevel → Severity
  | .untrusted => .allowed
  | .ask => dueIf (!simple context change) .confirmed
  | .moderate => dueIf (isProtectedPath change context) .downgraded ⊔
      dueIf change.addsExecBit .downgraded ⊔ dueIf change.isBinary .downgraded ⊔
        dueIf change.touchesSubmodule .downgraded
  | .trusted => dueIf change.addsExecBit .downgraded ⊔
      dueIf (change.isBinary && !isWhitelistedBinary lowercase change context.config) .downgraded ⊔
        dueIf (isProtectedPath change context) .confirmed
  | .privileged allowedPaths =>
      dueIf (!allowedPaths.any fun allowed => pathStartsWith change.path allowed) .denied

/-- The shared restrictions that a level drops. -/
def optionsOf : ApprovalLevel → CommonCheckOptions
  | .privileged _ => ⟨true, true⟩
  | _ => .standard

/-- What a level says of the number of the changes. -/
def countSeverity : ApprovalLevel → Severity
  | .untrusted => .confirmed
  | .ask => dueIf (2 < context.fileChanges.length) .confirmed
  | .moderate => dueIf (context.config.maxFilesModerate.toNat < context.fileChanges.length) .downgraded
  | _ => .allowed

/-- What a level says of the sum of their lines. -/
def linesSeverity : ApprovalLevel → Severity
  | .moderate => dueIf (context.config.maxLinesModerate < totalLinesChanged context) .downgraded
  | _ => .allowed

/-- What a level says of all but the sum of the lines. -/
def growingSeverity (level : ApprovalLevel) : Severity :=
  join (commonSeverity (optionsOf level)) context.fileChanges ⊔
    (join (fun change => ownSeverity lowercase context change level) context.fileChanges ⊔
      countSeverity context level)

/-- What a level says of all. -/
def severity (level : ApprovalLevel) : Severity :=
  growingSeverity lowercase context level ⊔ linesSeverity context level

end

variable {lowercase : Text → Text} {default level : ApprovalLevel} {context : Context}
  {change : PolicyEngine.FileChange} {changes others : List PolicyEngine.FileChange}

/-! ## Every level joins -/

theorem commonRestriction_verdict {options : CommonCheckOptions} {decision : PolicyDecision}
    (restricted : commonRestriction options change = some decision) :
    verdict decision = Severity.denied.toVerdict := by
  unfold commonRestriction at restricted
  split at restricted
  · cases restricted
    rfl
  · split at restricted
    · cases restricted
      rfl
    · split at restricted
      · cases restricted
        rfl
      · cases restricted

/-- The first change that is denied decides as if it were the strictest. -/
theorem common_verdict {options : CommonCheckOptions} {rest : PolicyDecision} {own : Severity}
    (passed : (∀ change ∈ context.fileChanges, commonRestriction options change = none) →
      verdict rest = own.toVerdict) :
    verdict ((checkCommonRestrictions context options).getD rest) =
      (join (commonSeverity options) context.fileChanges ⊔ own).toVerdict := by
  unfold commonSeverity
  rw [join_dueIf]
  cases found : checkCommonRestrictions context options with
  | none =>
    have free := List.findSome?_eq_none_iff.mp found
    have quiet : (context.fileChanges.any fun change => (commonRestriction options change).isSome) =
        false := by
      rw [List.any_eq_false]
      intro change member
      simp [free change member]
    rw [Option.getD_none, passed free, quiet, dueIf_false, bot_sup_eq]
  | some decision =>
    obtain ⟨change, member, restricted⟩ := List.exists_of_findSome?_eq_some found
    have loud : (context.fileChanges.any fun change => (commonRestriction options change).isSome) =
        true := List.any_eq_true.mpr ⟨change, member, by rw [restricted]; rfl⟩
    rw [Option.getD_some, loud, dueIf_true, commonRestriction_verdict restricted]
    cases own <;> rfl

theorem isSimpleChange_eq : isSimpleChange context =
    (decide (context.fileChanges.length ≤ 2) && context.fileChanges.all (simple context)) := by
  unfold simple isSimpleChange withChanges
  simp [isProtectedPath]

/-- What a level says of all but the shared restrictions. -/
def restSeverity (lowercase : Text → Text) (context : Context) (level : ApprovalLevel) : Severity :=
  join (fun change => ownSeverity lowercase context change level) context.fileChanges ⊔
    countSeverity context level ⊔ linesSeverity context level

theorem severity_eq : severity lowercase context level =
    join (commonSeverity (optionsOf level)) context.fileChanges ⊔
      restSeverity lowercase context level := by
  rw [severity, growingSeverity, restSeverity, sup_assoc]

theorem untrusted_rest (reason : Text) : verdict (allowWithConfirmation reason) =
    (restSeverity lowercase context .untrusted).toVerdict := by
  unfold restSeverity
  have silent : join (fun change => ownSeverity lowercase context change .untrusted)
      context.fileChanges = ⊥ := bot_unique (join_le_iff.mpr fun _ _ => bot_le)
  rw [silent]
  rfl

theorem ask_rest (exec simple_all plain : Text) :
    verdict (if context.fileChanges.any (·.addsExecBit) then allowWithConfirmation exec
      else if isSimpleChange context then allow simple_all else allowWithConfirmation plain) =
    (restSeverity lowercase context .ask).toVerdict := by
  unfold restSeverity ownSeverity countSeverity linesSeverity
  rw [join_dueIf, isSimpleChange_eq]
  have any_not : (context.fileChanges.any fun change => !simple context change) =
      !context.fileChanges.all (simple context) := by
    rw [List.all_eq_not_any_not, Bool.not_not]
  rw [any_not]
  by_cases exec_bit : context.fileChanges.any (·.addsExecBit) = true
  · obtain ⟨change, member, adds⟩ := List.any_eq_true.mp exec_bit
    have not_all : context.fileChanges.all (simple context) = false := by
      rw [List.all_eq_false]
      refine ⟨change, member, ?_⟩
      simp [simple, isSimpleChange, withChanges, adds]
    rw [if_pos exec_bit, not_all]
    cases decide (2 < context.fileChanges.length) <;> rfl
  · rw [if_neg exec_bit]
    by_cases few : context.fileChanges.length ≤ 2
    · have not_many : decide (2 < context.fileChanges.length) = false := by simpa using few
      rw [not_many, decide_eq_true few, Bool.true_and]
      cases context.fileChanges.all (simple context) <;> rfl
    · have many : decide (2 < context.fileChanges.length) = true := by simpa using few
      rw [many, decide_eq_false few, Bool.false_and, if_neg Bool.false_ne_true]
      cases context.fileChanges.all (simple context) <;> rfl

theorem no_gitmodules (passed : ∀ change ∈ context.fileChanges,
    commonRestriction .standard change = none) :
    context.fileChanges.any (·.touchesGitmodules) = false := by
  rw [List.any_eq_false]
  intro change member
  simpa using (commonRestriction_none.mp (passed change member)).2.1 rfl

theorem untrusted_verdict : verdict (evaluateUntrusted context) =
    (severity lowercase context .untrusted).toVerdict := by
  rw [severity_eq]
  exact common_verdict fun _ => untrusted_rest _

theorem ask_verdict : verdict (evaluateAsk context) =
    (severity lowercase context .ask).toVerdict := by
  rw [severity_eq]
  exact common_verdict fun _ => ask_rest _ _ _

/-- A decision has a severity, and that is at most another one. -/
structure Judges (decision : PolicyDecision) (own bound : Severity) : Prop where
  reads : verdict decision = own.toVerdict
  le : own ≤ bound

/-- One check before others that are not stricter adds its severity to theirs. -/
theorem Judges.check {p : Prop} [Decidable p] {first rest : PolicyDecision}
    {own bound next : Severity} (others : Judges rest own bound)
    (reads : verdict first = bound.toVerdict) (le : bound ≤ next) :
    Judges (if p then first else rest) (dueIf (decide p) bound ⊔ own) next := by
  by_cases holds : p
  · refine ⟨?_, sup_le ((dueIf_le _ _).trans le) (others.le.trans le)⟩
    rw [if_pos holds, decide_eq_true holds, dueIf_true, sup_eq_left.mpr others.le, reads]
  · refine ⟨?_, sup_le ((dueIf_le _ _).trans le) (others.le.trans le)⟩
    rw [if_neg holds, decide_eq_false holds, dueIf_false, bot_sup_eq, others.reads]

theorem Judges.allow (reason : Text) (bound : Severity) :
    Judges (PolicyEngine.allow reason) ⊥ bound := ⟨rfl, bot_le⟩

theorem moderate_verdict : verdict (evaluateModerate context) =
    (severity lowercase context .moderate).toVerdict := by
  rw [severity_eq]
  refine common_verdict fun passed => ?_
  rw [no_gitmodules passed, if_neg Bool.false_ne_true]
  -- the checks from the last one to the first: submodules, binary, executable, protected,
  -- lines, files
  refine (Judges.check (Judges.check (Judges.check (Judges.check (Judges.check (Judges.check
    (.allow _ .downgraded) rfl le_rfl) rfl le_rfl) rfl le_rfl) rfl le_rfl) rfl le_rfl)
      rfl (le_refl Severity.downgraded)).reads.trans ?_
  refine congrArg Severity.toVerdict ?_
  unfold restSeverity ownSeverity countSeverity linesSeverity
  rw [join_sup, join_sup, join_sup, join_dueIf, join_dueIf, join_dueIf, join_dueIf]
  simp only [Bool.decide_eq_true, gt_iff_lt, sup_bot_eq]
  ac_rfl

/-- The same for a check that names the first change it does not pass. -/
theorem Judges.find {p : PolicyEngine.FileChange → Bool} {rest : PolicyDecision}
    {first : PolicyEngine.FileChange → PolicyDecision} {own bound next : Severity}
    (others : Judges rest own bound) (reads : ∀ change, verdict (first change) = bound.toVerdict)
    (le : bound ≤ next) :
    Judges (match changes.find? p with
      | some change => first change
      | none => rest) (dueIf (changes.any p) bound ⊔ own) next := by
  cases found : changes.find? p with
  | some change =>
    have met : changes.any p = true :=
      List.any_eq_true.mpr ⟨change, List.mem_of_find?_eq_some found, List.find?_some found⟩
    refine ⟨?_, sup_le ((dueIf_le _ _).trans le) (others.le.trans le)⟩
    rw [met, dueIf_true, sup_eq_left.mpr others.le, reads]
  | none =>
    have unmet : changes.any p = false := by
      rw [List.any_eq_false]
      exact List.find?_eq_none.mp found
    refine ⟨?_, sup_le ((dueIf_le _ _).trans le) (others.le.trans le)⟩
    rw [unmet, dueIf_false, bot_sup_eq, others.reads]

theorem trusted_verdict : verdict (evaluateTrusted lowercase context) =
    (severity lowercase context .trusted).toVerdict := by
  rw [severity_eq]
  refine common_verdict fun passed => ?_
  rw [no_gitmodules passed, if_neg Bool.false_ne_true]
  -- the checks from the last one to the first: protected, binary, executable
  refine (Judges.check (Judges.find (Judges.check (.allow _ .confirmed) rfl (by decide))
    (fun _ => rfl) le_rfl) rfl (le_refl Severity.downgraded)).reads.trans ?_
  refine congrArg Severity.toVerdict ?_
  unfold restSeverity ownSeverity countSeverity linesSeverity
  rw [join_sup, join_sup, join_dueIf, join_dueIf, join_dueIf]
  simp only [Bool.decide_eq_true, sup_bot_eq]
  change _ = _ ⊔ ⊥ ⊔ ⊥
  rw [sup_bot_eq, sup_bot_eq]
  ac_rfl

theorem privileged_verdict {allowedPaths : List PathBuf} :
    verdict (evaluatePrivileged context allowedPaths) =
      (severity lowercase context (.privileged allowedPaths)).toVerdict := by
  rw [severity_eq]
  refine common_verdict fun _ => ?_
  refine (Judges.find (.allow _ .denied) (fun _ => rfl) (le_refl Severity.denied)).reads.trans ?_
  refine congrArg Severity.toVerdict ?_
  unfold restSeverity ownSeverity countSeverity linesSeverity
  rw [join_dueIf]
  change _ = _ ⊔ ⊥ ⊔ ⊥
  rw [sup_bot_eq, sup_bot_eq]

/-- **Judging is a join.** The verdict is that of the strictest of what the level says of
each change, of their number and of their lines. -/
theorem evaluateChanges_verdict : verdict (evaluateChanges lowercase default context) =
    (severity lowercase context
      (effectiveLevel context.requestedApprovalLevel default)).toVerdict := by
  unfold evaluateChanges
  cases effectiveLevel context.requestedApprovalLevel default with
  | untrusted => exact untrusted_verdict
  | ask => exact ask_verdict
  | moderate => exact moderate_verdict
  | trusted => exact trusted_verdict
  | privileged allowedPaths => exact privileged_verdict

/-! ## Order and growth -/

/-- A check of the level `Moderate` other than that of the lines stops some change. -/
def Stopped (context : Context) (changes : List PolicyEngine.FileChange) : Prop :=
  context.config.maxFilesModerate.toNat < changes.length ∨
  ∃ change ∈ changes, commonRestriction .standard change ≠ none ∨
    isProtectedPath change context = true ∨ change.addsExecBit = true ∨
    change.isBinary = true ∨ change.touchesSubmodule = true

/-- At the level `Moderate`, where the lines are more than the limit, their sum does not
shrink below it with one more change, or else another check stops the changes. -/
def LinesKept (default : ApprovalLevel) (context : Context) (change : PolicyEngine.FileChange) :
    Prop :=
  effectiveLevel context.requestedApprovalLevel default = .moderate →
    context.config.maxLinesModerate < totalLinesChanged context →
    context.config.maxLinesModerate <
        totalLinesChanged (withChanges context (change :: context.fileChanges)) ∨
      Stopped context (change :: context.fileChanges)

/-- The lines that a change adds or deletes. -/
def changedLines (change : PolicyEngine.FileChange) : Nat :=
  change.linesAdded.toNat + change.linesDeleted.toNat

/-- A sum that fits into 64 bits is the sum. -/
theorem totalLinesChanged_fits (fits : (changes.map changedLines).sum < 2 ^ 64) :
    (totalLinesChanged (withChanges context changes)).toNat = (changes.map changedLines).sum := by
  have from_sum : ∀ sum : UInt64, sum.toNat + (changes.map changedLines).sum < 2 ^ 64 →
      (changes.foldl (fun sum change => sum + (change.linesAdded + change.linesDeleted)) sum).toNat =
        sum.toNat + (changes.map changedLines).sum := by
    clear fits
    induction changes with
    | nil => exact fun sum _ => rfl
    | cons change changes ih =>
      intro sum fits
      rw [List.map_cons, List.sum_cons, changedLines] at fits ⊢
      have both : (sum + (change.linesAdded + change.linesDeleted)).toNat =
          sum.toNat + (change.linesAdded.toNat + change.linesDeleted.toNat) := by
        rw [UInt64.toNat_add, UInt64.toNat_add]
        omega
      rw [List.foldl_cons, ih _ (by omega), both]
      omega
  have zero := from_sum 0 (by simpa using fits)
  simpa [totalLinesChanged, withChanges] using zero

/-- Lines that can be counted at all never shrink. -/
theorem linesKept_of_fits
    (fits : ((change :: context.fileChanges).map changedLines).sum < 2 ^ 64) :
    LinesKept default context change := by
  intro _ beyond
  refine .inl ?_
  rw [List.map_cons, List.sum_cons] at fits
  have before := @totalLinesChanged_fits context context.fileChanges (by omega)
  have later := @totalLinesChanged_fits context (change :: context.fileChanges)
    (by rwa [List.map_cons, List.sum_cons])
  rw [List.map_cons, List.sum_cons] at later
  rw [UInt64.lt_iff_toNat_lt] at beyond ⊢
  have same : totalLinesChanged (withChanges context context.fileChanges) =
      totalLinesChanged context := rfl
  rw [same] at before
  omega

end PolicyOrder

end Devit
